import Conditioning.Literal.Basic

/-!
# Dicts

Giving a key a new value keeps the place at which the key first appeared, and a
new key goes to the end.  Merging gives the keys of one dict their values from
another, one entry after the other.
-/

namespace Conditioning

namespace Dict

/-- The dict without entries. -/
def empty : Dict := ⟨[]⟩

/-- The number of entries. -/
def size (d : Dict) : Nat := d.entries.length

/-- Whether there is no entry. -/
def isEmpty (d : Dict) : Bool := d.entries.isEmpty

/-- Put a value under a key in a list of entries. -/
def putEntry (key value : Literal) : List (Literal × Literal) → List (Literal × Literal)
  | [] => [(key, value)]
  | (k, v) :: es =>
    if k.same key then (k, value) :: es else (k, v) :: putEntry key value es

/-- Put a value under a key. -/
def put (d : Dict) (key value : Literal) : Dict := ⟨putEntry key value d.entries⟩

/-- The value under a text key. -/
def get? (d : Dict) (name : String) : Option Literal :=
  (d.entries.find? fun entry => entry.1.asText? == some name).map Prod.snd

/-- Whether there is a value under a text key. -/
def contains (d : Dict) (name : String) : Bool := (d.get? name).isSome

/-- Put every entry of another dict. -/
def merge (d other : Dict) : Dict :=
  other.entries.foldl (fun d entry => d.put entry.1 entry.2) d

@[simp] theorem entries_empty : empty.entries = [] := rfl

@[simp] theorem entries_put (d : Dict) (key value : Literal) :
    (d.put key value).entries = putEntry key value d.entries := rfl

@[simp] theorem putEntry_nil (key value : Literal) : putEntry key value [] = [(key, value)] := rfl

theorem putEntry_cons (key value : Literal) (entry : Literal × Literal)
    (es : List (Literal × Literal)) :
    putEntry key value (entry :: es) =
      if entry.1.same key then (entry.1, value) :: es else entry :: putEntry key value es := rfl

@[simp] theorem merge_empty (d : Dict) : d.merge empty = d := rfl

end Dict

end Conditioning
