/-! # Methods and access masks

The four operations that a client may ask for, and sets of them. Every property carries two such sets:
one for the property itself and one for the items of a collection held in it.
-/

namespace ResourceQuery

/-- An operation on a resource or a property. -/
inductive HttpMethod where
  | get
  | post
  | patch
  | delete
  deriving DecidableEq

namespace HttpMethod

/-- The capital verb. -/
def verb : HttpMethod → String
  | .get => "GET"
  | .post => "POST"
  | .patch => "PATCH"
  | .delete => "DELETE"

/-- The verb as a title. -/
def title : HttpMethod → String
  | .get => "Get"
  | .post => "Post"
  | .patch => "Patch"
  | .delete => "Delete"

/-- All methods, in the order in which sets are listed. -/
def all : List HttpMethod := [.get, .post, .patch, .delete]

/-- The method with the given capital verb. -/
def ofVerb? (s : String) : Option HttpMethod :=
  all.find? (·.verb == s)

end HttpMethod

/-- A set of methods. -/
structure HttpMethods where
  get : Bool
  post : Bool
  patch : Bool
  delete : Bool
  deriving DecidableEq

namespace HttpMethods

/-- No method. -/
def none : HttpMethods := ⟨false, false, false, false⟩

/-- Every method. -/
def all : HttpMethods := ⟨true, true, true, true⟩

/-- All but removal. -/
def readWrite : HttpMethods := ⟨true, true, true, false⟩

/-- Whether `m` is in the set. -/
def contains (s : HttpMethods) : HttpMethod → Bool
  | .get => s.get
  | .post => s.post
  | .patch => s.patch
  | .delete => s.delete

/-- The set with membership of `m` set to `member`. -/
def put (s : HttpMethods) (m : HttpMethod) (member : Bool) : HttpMethods :=
  match m with
  | .get => { s with get := member }
  | .post => { s with post := member }
  | .patch => { s with patch := member }
  | .delete => { s with delete := member }

/-- The set and `m`. -/
def insert (s : HttpMethods) (m : HttpMethod) : HttpMethods := s.put m true

/-- The set without `m`. -/
def erase (s : HttpMethods) (m : HttpMethod) : HttpMethods := s.put m false

/-- The methods of either set. -/
def union (s t : HttpMethods) : HttpMethods :=
  ⟨s.get || t.get, s.post || t.post, s.patch || t.patch, s.delete || t.delete⟩

/-- The set of the methods in a list. -/
def ofList (ms : List HttpMethod) : HttpMethods :=
  ms.foldl insert none

/-- The set that holds just `m`. -/
def only (m : HttpMethod) : HttpMethods := none.insert m

/-- The methods of the set, in the order of `HttpMethod.all`. -/
def toList (s : HttpMethods) : List HttpMethod :=
  HttpMethod.all.filter s.contains

/-- The set as messages show it: titles between braces. -/
def describe (s : HttpMethods) : String :=
  "\x7b" ++ ", ".intercalate (s.toList.map HttpMethod.title) ++ "\x7d"

@[simp] theorem contains_insert (s : HttpMethods) (m n : HttpMethod) :
    (s.insert m).contains n = (decide (n = m) || s.contains n) := by
  cases m <;> cases n <;> simp [insert, put, contains]

@[simp] theorem contains_erase (s : HttpMethods) (m n : HttpMethod) :
    (s.erase m).contains n = (decide (n ≠ m) && s.contains n) := by
  cases m <;> cases n <;> simp [erase, put, contains]

@[simp] theorem contains_union (s t : HttpMethods) (m : HttpMethod) :
    (s.union t).contains m = (s.contains m || t.contains m) := by
  cases m <;> rfl

end HttpMethods

end ResourceQuery
