import Mathlib.Algebra.Order.Ring.Int
import Mathlib.Data.List.Nodup
import Mathlib.Tactic.Common

/-!
# Databases of tables

Tables with named columns and the constraints their definitions state, the statements that change
what tables there are, and the insertion of rows.  A database is sound if its rows meet the
constraints of their tables (`Database.Sound`).
-/

namespace Sql

inductive Value
  | null
  | integer (n : ℤ)
  | real (bits : UInt64)
  | text (s : String)
  | blob (bytes : List UInt8)
  deriving DecidableEq, Repr

inductive Kind
  | integer
  | real
  | text
  | blob
  deriving DecidableEq, Repr

def Value.fits : Kind → Value → Bool
  | _, .null => true
  | .integer, .integer _ => true
  | .real, .real _ => true
  | .text, .text _ => true
  | .blob, .blob _ => true
  | _, _ => false

/-- A row, by its columns. -/
abbrev Row := String → Value

/-- The row with these values, and `NULL` in the other columns. -/
def rowOf (values : List (String × Value)) : Row := fun column =>
  ((values.find? fun x => x.1 = column).map Prod.snd).getD .null

structure Column where
  name : String
  kind : Kind
  notNull : Bool
  fallback : Value
  deriving DecidableEq, Repr

/-- The conditions of `CHECK` and of partial indexes. -/
inductive Cond
  | eq (column : String) (v : Value)
  | ne (column : String) (v : Value)
  | differ (column other : String)
  | isNull (column : String)
  | isIn (column : String) (values : List Value)
  | and (a b : Cond)
  | or (a b : Cond)
  | not (a : Cond)
  /-- `=` of two conditions. -/
  | same (a b : Cond)
  deriving DecidableEq, Repr

namespace Cond

/-- Whether a row meets a condition, which is not known where a `NULL` is compared. -/
def eval (r : Row) : Cond → Option Bool
  | eq column v => if r column = .null then none else some (r column = v)
  | ne column v => if r column = .null then none else some (r column ≠ v)
  | differ column other =>
    if r column = .null ∨ r other = .null then none else some (r column ≠ r other)
  | isNull column => some (r column = .null)
  | isIn column values => if r column = .null then none else some (r column ∈ values)
  | and a b =>
    match a.eval r, b.eval r with
    | some false, _ => some false
    | _, some false => some false
    | some true, some true => some true
    | _, _ => none
  | or a b =>
    match a.eval r, b.eval r with
    | some true, _ => some true
    | _, some true => some true
    | some false, some false => some false
    | _, _ => none
  | not a => (a.eval r).map (!·)
  | same a b =>
    match a.eval r, b.eval r with
    | some x, some y => some (x == y)
    | _, _ => none

def columns : Cond → List String
  | eq column _ => [column]
  | ne column _ => [column]
  | differ column other => [column, other]
  | isNull column => [column]
  | isIn column _ => [column]
  | and a b => a.columns ++ b.columns
  | or a b => a.columns ++ b.columns
  | not a => a.columns
  | same a b => a.columns ++ b.columns

theorem eval_congr {r s : Row} {a : Cond} (h : ∀ column ∈ a.columns, r column = s column) :
    a.eval r = a.eval s := by
  induction a with
  | eq column v => simp [eval, h column (by simp [columns])]
  | ne column v => simp [eval, h column (by simp [columns])]
  | differ column other =>
    simp [eval, h column (by simp [columns]), h other (by simp [columns])]
  | isNull column => simp [eval, h column (by simp [columns])]
  | isIn column values => simp [eval, h column (by simp [columns])]
  | and a b iha ihb =>
    rw [eval, eval, iha fun c hc => h c (by simp [columns, hc]),
      ihb fun c hc => h c (by simp [columns, hc])]
  | or a b iha ihb =>
    rw [eval, eval, iha fun c hc => h c (by simp [columns, hc]),
      ihb fun c hc => h c (by simp [columns, hc])]
  | not a ih => rw [eval, eval, ih h]
  | same a b iha ihb =>
    rw [eval, eval, iha fun c hc => h c (by simp [columns, hc]),
      ihb fun c hc => h c (by simp [columns, hc])]

end Cond

inductive Constraint
  | check (a : Cond)
  /-- `PRIMARY KEY`, `UNIQUE`, or a unique index, which may be on some of the rows. -/
  | unique (columns : List String) (among : Option Cond)
  | references (column table key : String)
  deriving DecidableEq, Repr

def Constraint.columns : Constraint → List String
  | check a => a.columns
  | unique columns among => columns ++ (among.map Cond.columns).getD []
  | references column _ key => [column, key]

structure Table where
  name : String
  columns : List Column
  constraints : List Constraint
  rows : List Row

/-- `TEXT NOT NULL`. -/
def Column.ofText (name : String) : Column := ⟨name, .text, true, .null⟩

/-- `TEXT`. -/
def Column.ofTextOrNull (name : String) : Column := ⟨name, .text, false, .null⟩

/-- `TEXT NOT NULL DEFAULT`. -/
def Column.ofTextOr (name fallback : String) : Column := ⟨name, .text, true, .text fallback⟩

/-- `INTEGER NOT NULL`. -/
def Column.ofInteger (name : String) : Column := ⟨name, .integer, true, .null⟩

/-- `INTEGER`. -/
def Column.ofIntegerOrNull (name : String) : Column := ⟨name, .integer, false, .null⟩

/-- `INTEGER NOT NULL DEFAULT`. -/
def Column.ofIntegerOr (name : String) (fallback : ℤ) : Column :=
  ⟨name, .integer, true, .integer fallback⟩

/-- A condition that a text column has one of some values. -/
def Cond.oneOf (column : String) (values : List String) : Cond := .isIn column (values.map .text)

def Cond.notNull (column : String) : Cond := .not (.isNull column)

structure Database where
  tables : List Table
  userVersion : ℤ

namespace Database

def find (db : Database) (name : String) : Option Table := db.tables.find? fun t => t.name = name

def rowsOf (db : Database) (name : String) : List Row := ((db.find name).map Table.rows).getD []

def names (db : Database) : List String := db.tables.map Table.name

/-- What tables there are, without their rows. -/
def shape (db : Database) : List Table := db.tables.map fun t => { t with rows := [] }

def setVersion (db : Database) (version : ℤ) : Database := { db with userVersion := version }

/-- The database with the tables of a name changed. -/
def alter (db : Database) (name : String) (f : Table → Table) : Database :=
  { db with tables := db.tables.map fun t => if t.name = name then f t else t }

end Database

/-! ### Constraints -/

def Column.Admits (column : Column) (r : Row) : Prop :=
  (r column.name).fits column.kind ∧ (column.notNull → r column.name ≠ .null)

/-- What a constraint asks of one row of its table. -/
def Constraint.Admits (db : Database) (r : Row) : Constraint → Prop
  | check a => a.eval r ≠ some false
  | unique _ _ => True
  | references column table key =>
    r column = .null ∨ ∃ x ∈ db.rowsOf table, x key = r column

/-- What a constraint asks of two rows of its table. -/
def Constraint.Apart (r s : Row) : Constraint → Prop
  | unique columns among =>
    (∀ a, among = some a → a.eval r = some true ∧ a.eval s = some true) →
      ∃ column ∈ columns, r column = .null ∨ s column = .null ∨ r column ≠ s column
  | _ => True

structure Table.Admits (db : Database) (t : Table) (r : Row) : Prop where
  columns : ∀ column ∈ t.columns, column.Admits r
  constraints : ∀ k ∈ t.constraints, k.Admits db r

structure Table.Sound (db : Database) (t : Table) : Prop where
  admits : ∀ r ∈ t.rows, t.Admits db r
  apart : ∀ k ∈ t.constraints, t.rows.Pairwise fun r s => k.Apart r s

/-- A database that meets the constraints of its tables. -/
structure Database.Sound (db : Database) : Prop where
  nodup : db.names.Nodup
  tables : ∀ t ∈ db.tables, t.Sound db

section Decide

variable {db : Database} {t : Table} {r s : Row}

instance (column : Column) : Decidable (column.Admits r) := inferInstanceAs (Decidable (_ ∧ _))

instance : (k : Constraint) → Decidable (k.Admits db r)
  | .check a => inferInstanceAs (Decidable (a.eval r ≠ some false))
  | .unique _ _ => isTrue trivial
  | .references column table key =>
    inferInstanceAs (Decidable (r column = .null ∨ ∃ x ∈ db.rowsOf table, x key = r column))

instance : (k : Constraint) → Decidable (k.Apart r s)
  | .check _ => isTrue trivial
  | .unique columns none =>
    decidable_of_iff (∃ column ∈ columns, r column = .null ∨ s column = .null ∨
      r column ≠ s column) ⟨fun h _ => h, fun h => h fun a ha => by simp at ha⟩
  | .unique columns (some a) =>
    decidable_of_iff (a.eval r = some true ∧ a.eval s = some true →
      ∃ column ∈ columns, r column = .null ∨ s column = .null ∨ r column ≠ s column)
      ⟨fun h ha => h (ha a rfl), fun h ha => h fun b hb => by
        obtain rfl := Option.some.inj hb
        exact ha⟩
  | .references _ _ _ => isTrue trivial

instance : Decidable (t.Admits db r) :=
  decidable_of_iff ((∀ column ∈ t.columns, column.Admits r) ∧ ∀ k ∈ t.constraints, k.Admits db r)
    ⟨fun h => ⟨h.1, h.2⟩, fun h => ⟨h.1, h.2⟩⟩

end Decide

/-! ### Statements -/

/-- A statement that defines tables. -/
inductive Definition
  | createTable (ifNotExists : Bool) (t : Table)
  /-- An index that is not unique holds nothing of its own. -/
  | createIndex
  | addColumn (table : String) (column : Column) (checks : List Cond)

/-- A row, with an added column. -/
def Row.fill (column : Column) (r : Row) : Row := Function.update r column.name column.fallback

def Table.addColumn (column : Column) (checks : List Cond) (t : Table) : Table where
  name := t.name
  columns := t.columns ++ [column]
  constraints := t.constraints ++ checks.map .check
  rows := t.rows.map (Row.fill column)

def Definition.exec (db : Database) : Definition → Except String Database
  | createTable ifNotExists t =>
    if t.name ∈ db.names then
      if ifNotExists then .ok db else .error ("table " ++ t.name ++ " already exists")
    else .ok { db with tables := db.tables ++ [{ t with rows := [] }] }
  | createIndex => .ok db
  | addColumn table column checks =>
    match db.find table with
    | none => .error ("no such table: " ++ table)
    | some t =>
      if column.name ∈ t.columns.map Column.name then
        .error ("duplicate column name: " ++ column.name)
      else if ∀ r ∈ t.rows, column.Admits (r.fill column) ∧
          ∀ a ∈ checks, a.eval (r.fill column) ≠ some false then
        .ok (db.alter table (Table.addColumn column checks))
      else .error "constraint failed"

/-- A column that can be added to rows whatever they are. -/
def Definition.Fillable : Definition → Prop
  | addColumn _ column checks => column.Admits (fun _ => column.fallback) ∧
      ∀ a ∈ checks, (∀ c ∈ a.columns, c = column.name) ∧
        a.eval (fun _ => column.fallback) ≠ some false
  | _ => True

/-- A column that no constraint of some tables reads. -/
def Definition.Unread (tables : List Table) : Definition → Prop
  | addColumn _ column _ => ∀ t ∈ tables, ∀ k ∈ t.constraints, column.name ∉ k.columns
  | _ => True

def Table.append (rows : List Row) (t : Table) : Table := { t with rows := t.rows ++ rows }

/-- `INSERT`, of one row. -/
def insert (table : String) (r : Row) (db : Database) : Except String Database :=
  match db.find table with
  | none => .error ("no such table: " ++ table)
  | some t =>
    if t.Admits db r ∧ ∀ k ∈ t.constraints, ∀ x ∈ t.rows, k.Apart x r then
      .ok (db.alter table (Table.append [r]))
    else .error "constraint failed"

def insertAll (table : String) (rows : List Row) (db : Database) : Except String Database :=
  rows.foldlM (fun db r => insert table r db) db

def execAll (definitions : List Definition) (db : Database) : Except String Database :=
  definitions.foldlM Definition.exec db

end Sql
