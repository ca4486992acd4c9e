import BuilderPro.Lib.Like
import BuilderPro.Orchd.Graph

/-!
# Searching the graph

`search_nodes` asks SQLite for the nodes whose label or body is `LIKE` a pattern, which it makes of
the query by escaping one metacharacter after another.
-/

namespace BuilderPro

open Like

/-- `str::replace`, of one character. -/
def replaceChar (c : Char) (text s : List Char) : List Char :=
  s.flatMap fun d => if d = c then text else [d]

/-- The pattern `search_nodes` makes of a query. -/
def searchPattern (query : String) : List Char :=
  let escaped := replaceChar '_' ['\\', '_'] (replaceChar '%' ['\\', '%']
    (replaceChar '\\' ['\\', '\\'] query.toList))
  '%' :: (escaped ++ ['%'])

/-- `label LIKE ?1 ESCAPE '\' OR body LIKE ?1 ESCAPE '\'`. -/
def GraphNode.isLike (pattern : List Char) (n : GraphNode) : Bool :=
  like '\\' pattern n.label.toList || like '\\' pattern n.body.toList

/-- `ORDER BY updated_at DESC, id`. -/
def GraphNode.listedBefore (m n : GraphNode) : Bool :=
  n.updatedAt < m.updatedAt || (m.updatedAt = n.updatedAt && m.id ≤ n.id)

def searchLimit : ℕ := 200

def Store.searchNodes (s : Store) (query : String) (projectId : Option String) : List GraphNode :=
  ((s.nodes.rows.filter fun n =>
      n.isLike (searchPattern query) && projectId.all (· == n.projectId)).mergeSort
    GraphNode.listedBefore).take searchLimit

/-- The query is somewhere in the label or in the body, whatever the case of their ASCII letters. -/
def GraphNode.Contains (query : String) (n : GraphNode) : Prop :=
  fold query.toList <:+: fold n.label.toList ∨ fold query.toList <:+: fold n.body.toList

instance (query : String) (n : GraphNode) : Decidable (n.Contains query) :=
  inferInstanceAs (Decidable (_ ∨ _))

theorem replaceChar_cons (c : Char) (text : List Char) (d : Char) (s : List Char) :
    replaceChar c text (d :: s) = (if d = c then text else [d]) ++ replaceChar c text s := by
  rw [replaceChar, List.flatMap_cons]
  rfl

theorem replaceChar_append (c : Char) (text s t : List Char) :
    replaceChar c text (s ++ t) = replaceChar c text s ++ replaceChar c text t :=
  List.flatMap_append

/-- Backslashes go first, so that none that is put in is escaped again. -/
theorem replaced_eq_escapeAll (s : List Char) :
    replaceChar '_' ['\\', '_'] (replaceChar '%' ['\\', '%'] (replaceChar '\\' ['\\', '\\'] s))
      = escapeAll '\\' s := by
  induction s with
  | nil => rfl
  | cons c s ih =>
    rw [replaceChar_cons, replaceChar_append, replaceChar_append, ih, escapeAll, escapeAll,
      List.flatMap_cons]
    congr 1
    by_cases hbackslash : c = '\\'
    · subst hbackslash
      decide
    · by_cases hpercent : c = '%'
      · subst hpercent
        decide
      · by_cases hunder : c = '_'
        · subst hunder
          decide
        · simp [replaceChar, IsMeta, hbackslash, hpercent, hunder]

theorem isLike_iff (query : String) (n : GraphNode) :
    n.isLike (searchPattern query) = true ↔ n.Contains query := by
  have hpattern : searchPattern query = '%' :: (escapeAll '\\' query.toList ++ ['%']) := by
    rw [← replaced_eq_escapeAll]
    rfl
  rw [GraphNode.isLike, hpattern, Bool.or_eq_true, like_contains (by decide),
    like_contains (by decide)]
  rfl

/-- Exactly the nodes that contain the query match, and of those in the projects that are searched
the latest are listed. -/
theorem searchNodes_contains (s : Store) (query : String) (projectId : Option String) :
    (∀ n : GraphNode, n.isLike (searchPattern query) = true ↔ n.Contains query) ∧
    s.searchNodes query projectId
      = ((s.nodes.rows.filter fun n =>
          decide (n.Contains query) && projectId.all (· == n.projectId)).mergeSort
        GraphNode.listedBefore).take 200 := by
  refine ⟨isLike_iff query, ?_⟩
  have hmatch : ∀ n : GraphNode, n.isLike (searchPattern query) = decide (n.Contains query) := by
    intro n
    rw [Bool.eq_iff_iff, isLike_iff, decide_eq_true_iff]
  unfold Store.searchNodes
  simp only [hmatch]
  rfl

end BuilderPro
