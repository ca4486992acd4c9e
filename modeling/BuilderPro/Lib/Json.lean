import Mathlib.Data.List.Nodup
import BuilderPro.Lib.Results

/-!
# JSON, as derived code reads and writes it

A text is what it says: a number by its digits, an object by its fields in their order.  A derived
reader takes an object's fields by their names, each once, and may refuse names it does not know.
-/

inductive Json
  | null
  | bool (b : Bool)
  | number (digits : String)
  | string (s : String)
  | array (elements : List Json)
  | object (fields : List (String × Json))

namespace Json

variable {α : Type}

def ofStrings (xs : List String) : Json := .array (xs.map .string)

def asBool : Json → Except String Bool
  | .bool b => .ok b
  | _ => .error "invalid type: expected a boolean"

def asString : Json → Except String String
  | .string s => .ok s
  | _ => .error "invalid type: expected a string"

def asStrings : Json → Except String (List String)
  | .array xs => xs.mapM asString
  | _ => .error "invalid type: expected a sequence"

/-- An `Option`, of which `null` is none. -/
def asOption (read : Json → Except String α) : Json → Except String (Option α)
  | .null => .ok none
  | j => some <$> read j

/-- How often a name is among the fields. -/
def countField (fields : List (String × Json)) (name : String) : ℕ :=
  fields.countP fun f => f.1 == name

/-- An object's fields, each known one at most once; `deny` is `deny_unknown_fields`. -/
def asFields (deny : Bool) (known : List String) : Json → Except String (List (String × Json))
  | .object fields =>
    match known.find? fun name => 1 < countField fields name with
    | some name => .error ("duplicate field " ++ name)
    | none =>
      match if deny then fields.find? fun f => !known.contains f.1 else none with
      | some f => .error ("unknown field " ++ f.1)
      | none => .ok fields
  | _ => .error "invalid type: expected a struct"

/-- A field, or what a missing one is by `default`. -/
def fieldOr (fields : List (String × Json)) (name : String) (missing : α)
    (read : Json → Except String α) : Except String α :=
  match fields.find? fun f => f.1 == name with
  | none => .ok missing
  | some f => read f.2

@[simp] theorem asStrings_ofStrings (xs : List String) : asStrings (ofStrings xs) = .ok xs := by
  unfold ofStrings asStrings
  induction xs with
  | nil => rfl
  | cons x xs ih =>
    simp only at ih
    simp only [List.map_cons, List.mapM_cons, ih]
    rfl

/-- What was written with every field once, under a name of its own, is read as it is. -/
theorem asFields_object {deny : Bool} {known : List String} {fields : List (String × Json)}
    (hnames : fields.map Prod.fst = known) (hnodup : known.Nodup) :
    asFields deny known (.object fields) = .ok fields := by
  have honce : known.find? (fun name => decide (1 < countField fields name)) = none := by
    rw [List.find?_eq_none]
    intro name _
    have hcount : countField fields name = known.count name := by
      rw [← hnames, List.count, List.countP_map]
      rfl
    rw [hcount, decide_eq_true_iff, Nat.not_lt]
    exact List.nodup_iff_count_le_one.1 hnodup name
  have hknown : (if deny then fields.find? fun f => !known.contains f.1 else none) = none := by
    split_ifs
    · rw [List.find?_eq_none]
      intro f hf
      have hmem : f.1 ∈ known := by
        rw [← hnames]
        exact List.mem_map_of_mem hf
      simp [hmem]
    · rfl
  simp only [asFields, honce, hknown]

end Json
