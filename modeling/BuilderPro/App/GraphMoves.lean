import BuilderPro.Lib.Runs
import BuilderPro.Orchd.Domain

/-!
# The moves of the graph canvas

`GraphCanvas.tsx` buffers the positions nodes are dragged to and sends the last of each once the
dragging pauses, for the project the canvas had when the flush was armed.  The last position of every
node is sent once, with the project of the node, exactly in the runs in which the nodes that are
dragged and those that wait in the buffer are the current project's, and the canvas is not taken away
while some wait (`saved_throughout_iff`).
-/

namespace BuilderPro

namespace GraphCanvas

structure GraphNodeMove where
  id : String
  posX : F64
  posY : F64
  deriving DecidableEq, Repr

/-- A change of a node, as the canvas is told of it. -/
inductive FlowNodeChange
  | position (id : String) (position : Option (F64 × F64))
  | other
  deriving DecidableEq, Repr

def flowPositionChangeToMove : FlowNodeChange → Option GraphNodeMove
  | .position id (some (x, y)) => some ⟨id, x, y⟩
  | .position _ none => none
  | .other => none

/-- `Map.set`: a key that is there keeps its place. -/
def setMove (byId : List GraphNodeMove) (move : GraphNodeMove) : List GraphNodeMove :=
  if byId.any fun m => m.id = move.id then byId.map fun m => if m.id = move.id then move else m
  else byId ++ [move]

def dedupeMovesById (moves : List GraphNodeMove) : List GraphNodeMove := moves.foldl setMove []

/-- A project's view: the ids of its nodes, and of the nodes of others it shows. -/
structure GraphView where
  nodes : List String
  externalNodes : List String
  deriving DecidableEq, Repr

/-- A view of the project, when the nodes have the projects `home` tells. -/
def GraphView.Of (home : String → String) (p : String) (view : GraphView) : Prop :=
  (∀ id ∈ view.nodes, home id = p) ∧ ∀ id ∈ view.externalNodes, home id ≠ p

instance (home : String → String) (p : String) (view : GraphView) : Decidable (view.Of home p) :=
  inferInstanceAs (Decidable (_ ∧ _))

/-- The store's `graphByProject`. -/
def GraphViews (home : String → String) : Type :=
  { views : String → Option GraphView // ∀ p view, views p = some view → view.Of home p }

/-- A node was dragged to a position, or a position was sent to `MoveNode` with a project. -/
inductive MoveEvent
  | moved (move : GraphNodeMove)
  | sent (move : GraphNodeMove) (projectId : String)
  deriving DecidableEq, Repr

/-- The canvas, while it is mounted, and the store's views.  `moveTimer` has the project its flush
was made for, and `history` what has happened, the last first. -/
structure Canvas (home : String → String) where
  mounted : Bool
  projectId : String
  views : GraphViews home
  nodes : List String
  moveBuffer : List GraphNodeMove
  moveTimer : Option String
  history : List MoveEvent

inductive CanvasAction
  | switchProject (projectId : String)
  | receiveView (projectId : String) (view : GraphView)
  /-- The effect that follows a change of the view. -/
  | showView
  | nodesChange (changes : List FlowNodeChange)
  | flush
  | unmount
  deriving DecidableEq, Repr

/-- The moves of a batch of changes. -/
def movesOf (changes : List FlowNodeChange) : List GraphNodeMove :=
  changes.filterMap flowPositionChangeToMove

variable {home : String → String}

namespace Canvas

def mount (projectId : String) (views : GraphViews home) : Canvas home :=
  ⟨true, projectId, views, [], [], none, []⟩

def ghostIds (s : Canvas home) (projectId : String) : List String :=
  ((s.views.1 projectId).map GraphView.externalNodes).getD []

/-- `flushMoves`, made for a project. -/
def flushMoves (s : Canvas home) (projectId : String) : Canvas home :=
  { s with
    moveTimer := none
    moveBuffer := []
    history := (((dedupeMovesById s.moveBuffer).filter fun m => m.id ∉ s.ghostIds projectId).map
      fun m => .sent m projectId).reverse ++ s.history }

def onNodesChange (s : Canvas home) (changes : List FlowNodeChange) : Canvas home :=
  if movesOf changes = [] then s
  else { s with
    moveBuffer := s.moveBuffer ++ movesOf changes
    moveTimer := some s.projectId
    history := ((movesOf changes).map .moved).reverse ++ s.history }

def receiveView (s : Canvas home) (p : String) (view : GraphView) (h : view.Of home p) :
    Canvas home :=
  { s with
    views := ⟨fun q => if q = p then some view else s.views.1 q, by
      intro q v hv
      simp only at hv
      split_ifs at hv with hq
      · rw [hq, ← Option.some.inj hv]
        exact h
      · exact s.views.2 q v hv⟩ }

def step (s : Canvas home) : CanvasAction → Option (Canvas home)
  | .switchProject p => if s.mounted then some { s with projectId := p } else none
  | .receiveView p view =>
    if h : view.Of home p then some (s.receiveView p view h) else none
  | .showView =>
    if s.mounted then
      some { s with nodes := ((s.views.1 s.projectId).map GraphView.nodes).getD [] }
    else none
  | .nodesChange changes =>
    if s.mounted ∧ ∀ m ∈ movesOf changes, m.id ∈ s.nodes then some (s.onNodesChange changes)
    else none
  | .flush => s.moveTimer.map s.flushMoves
  | .unmount =>
    if s.mounted then some { s with mounted := false, moveTimer := none, moveBuffer := [] }
    else none

/-! ### What has become of the moves -/

/-- The last move of a node, of a list of moves. -/
def lastMove (id : String) (moves : List GraphNodeMove) : Option GraphNodeMove :=
  (moves.filter fun m => m.id = id).getLast?

def lastMoved (id : String) : List MoveEvent → Option GraphNodeMove
  | [] => none
  | .moved m :: h => if m.id = id then some m else lastMoved id h
  | .sent _ _ :: h => lastMoved id h

/-- What has been sent of a node since it was last dragged. -/
def sentSince (id : String) : List MoveEvent → List (GraphNodeMove × String)
  | [] => []
  | .moved m :: h => if m.id = id then [] else sentSince id h
  | .sent m p :: h => if m.id = id then (m, p) :: sentSince id h else sentSince id h

/-- The last position of every node that was dragged has been sent once, with the node's project, or
is the node's last in the buffer, which is to be sent with that project. -/
def Saved (s : Canvas home) : Prop :=
  ∀ id m, lastMoved id s.history = some m →
    sentSince id s.history = [(m, home id)] ∨
      sentSince id s.history = [] ∧ s.moveTimer = some (home id) ∧ lastMove id s.moveBuffer = some m

/-- The nodes dragged, and those that wait, are the current project's; and none waits when the
canvas is taken away. -/
def KeepsToProject (s : Canvas home) : CanvasAction → Prop
  | .nodesChange changes => movesOf changes ≠ [] →
      ∀ m ∈ s.moveBuffer ++ movesOf changes, home m.id = s.projectId
  | .unmount => s.moveBuffer = []
  | _ => True

/-! ### What a flush sends -/

variable {id projectId : String} {m move : GraphNodeMove} {moves : List GraphNodeMove}
  {h : List MoveEvent} {s t : Canvas home}

theorem filter_setMove_self {byId : List GraphNodeMove}
    (hbyId : (byId.filter fun m => m.id = move.id).length ≤ 1) :
    (setMove byId move).filter (fun m => m.id = move.id) = [move] := by
  unfold setMove
  split_ifs with hany
  · obtain ⟨x, hx, hid⟩ := List.any_eq_true.1 hany
    have hmem : x ∈ byId.filter fun m => m.id = move.id := List.mem_filter.2 ⟨hx, hid⟩
    have hkept : ((fun m : GraphNodeMove => decide (m.id = move.id)) ∘
        fun m => if m.id = move.id then move else m) = fun m => decide (m.id = move.id) := by
      funext m
      by_cases hm : m.id = move.id <;> simp [hm]
    rw [List.filter_map, hkept]
    obtain ⟨y, hy⟩ : ∃ y, byId.filter (fun m => m.id = move.id) = [y] := by
      refine List.length_eq_one_iff.1 ?_
      have hpos := List.length_pos_of_mem hmem
      omega
    rw [hy] at hmem ⊢
    obtain rfl := List.mem_singleton.1 hmem
    have hxid : x.id = move.id := by simpa using hid
    simp [hxid]
  · have hnone : byId.filter (fun m => m.id = move.id) = [] := by
      rw [List.filter_eq_nil_iff]
      intro m hm hid
      exact hany (List.any_eq_true.2 ⟨m, hm, hid⟩)
    simp [hnone]

theorem filter_setMove_of_ne {byId : List GraphNodeMove} (hid : move.id ≠ id) :
    (setMove byId move).filter (fun m => m.id = id) = byId.filter fun m => m.id = id := by
  unfold setMove
  split_ifs with hany
  · have hkept : ((fun m : GraphNodeMove => decide (m.id = id)) ∘
        fun m => if m.id = move.id then move else m) = fun m => decide (m.id = id) := by
      funext m
      by_cases hm : m.id = move.id
      · simp [hm, hid]
      · simp [hm]
    rw [List.filter_map, hkept]
    refine (List.map_congr_left fun m hm => ?_).trans (List.map_id _)
    have hmid : m.id = id := by simpa using (List.mem_filter.1 hm).2
    rw [if_neg (hmid ▸ hid.symm), id_eq]
  · simp [hid]

theorem lastMove_concat : lastMove id (moves ++ [move]) =
    if move.id = id then some move else lastMove id moves := by
  unfold lastMove
  split_ifs with hid <;> simp [hid]

/-- The last move of every node is sent, once. -/
theorem filter_dedupeMovesById (moves : List GraphNodeMove) (id : String) :
    (dedupeMovesById moves).filter (fun m => m.id = id) = (lastMove id moves).toList := by
  induction moves using List.reverseRecOn generalizing id with
  | nil => rfl
  | append_singleton moves move ih =>
    have hfold : dedupeMovesById (moves ++ [move]) = setMove (dedupeMovesById moves) move := by
      simp [dedupeMovesById]
    rw [hfold, lastMove_concat]
    split_ifs with hid
    · obtain rfl := hid
      refine filter_setMove_self ?_
      rw [ih]
      rcases lastMove move.id moves with _ | m <;> simp
    · rw [filter_setMove_of_ne hid, ih]

theorem lastMove_append {more : List GraphNodeMove} :
    lastMove id (moves ++ more) = (lastMove id more).or (lastMove id moves) := by
  unfold lastMove
  rw [List.filter_append, List.getLast?_append]

theorem lastMoved_moved : lastMoved id ((moves.map .moved).reverse ++ h) =
    (lastMove id moves).or (lastMoved id h) := by
  induction moves using List.reverseRecOn with
  | nil => simp [lastMove]
  | append_singleton moves move ih =>
    rw [List.map_append, List.reverse_append, List.map_singleton, List.reverse_singleton,
      List.singleton_append, List.cons_append, lastMoved, ih, lastMove_concat]
    split_ifs <;> rfl

theorem sentSince_moved : sentSince id ((moves.map .moved).reverse ++ h) =
    if lastMove id moves = none then sentSince id h else [] := by
  induction moves using List.reverseRecOn with
  | nil => simp [lastMove]
  | append_singleton moves move ih =>
    rw [List.map_append, List.reverse_append, List.map_singleton, List.reverse_singleton,
      List.singleton_append, List.cons_append, sentSince, ih, lastMove_concat]
    by_cases hid : move.id = id
    · simp [hid]
    · simp [hid]

theorem lastMoved_sent : lastMoved id ((moves.map fun m => .sent m projectId).reverse ++ h) =
    lastMoved id h := by
  induction moves using List.reverseRecOn with
  | nil => rfl
  | append_singleton moves move ih =>
    rw [List.map_append, List.reverse_append, List.map_singleton, List.reverse_singleton,
      List.singleton_append, List.cons_append, lastMoved, ih]

theorem sentSince_sent : sentSince id ((moves.map fun m => .sent m projectId).reverse ++ h) =
    ((moves.filter fun m => m.id = id).reverse.map fun m => (m, projectId)) ++ sentSince id h := by
  induction moves using List.reverseRecOn with
  | nil => rfl
  | append_singleton moves move ih =>
    rw [List.map_append, List.reverse_append, List.map_singleton, List.reverse_singleton,
      List.singleton_append, List.cons_append, sentSince, ih, List.filter_append]
    by_cases hid : move.id = id
    · simp [hid]
    · simp [hid]

/-! ### What is kept -/

/-- What waits in the buffer was dragged last and has not been sent, and its flush is armed for its
project; and the last position of every other node that was dragged has been sent once. -/
structure Buffered (s : Canvas home) : Prop where
  waits : ∀ id m, lastMove id s.moveBuffer = some m →
    lastMoved id s.history = some m ∧ sentSince id s.history = [] ∧ s.moveTimer = some (home id)
  sent : ∀ id m, lastMove id s.moveBuffer = none → lastMoved id s.history = some m →
    sentSince id s.history = [(m, home id)]

theorem saved_of_buffered (hs : s.Buffered) : s.Saved := by
  intro id m hm
  rcases hwait : lastMove id s.moveBuffer with _ | m'
  · exact .inl (hs.sent id m hwait hm)
  · obtain ⟨hlast, hnone, htimer⟩ := hs.waits id m' hwait
    obtain rfl := Option.some.inj (hlast.symm.trans hm)
    exact .inr ⟨hnone, htimer, rfl⟩

/-- What a flush sends of a node, if it is one of the project the flush was made for. -/
theorem filter_ghosts (s : Canvas home) (hid : home id = projectId) :
    (((dedupeMovesById s.moveBuffer).filter fun m => m.id ∉ s.ghostIds projectId).filter
      fun m => m.id = id) = (lastMove id s.moveBuffer).toList := by
  rw [List.filter_comm, filter_dedupeMovesById]
  have hlocal : id ∉ s.ghostIds projectId := by
    unfold ghostIds
    rcases hview : s.views.1 projectId with _ | view
    · simp
    · exact fun hmem => (s.views.2 projectId view hview).2 id hmem hid
  rcases hlast : lastMove id s.moveBuffer with _ | m
  · rfl
  · have hm : m.id = id := by
      have hmem := List.mem_of_getLast? hlast
      simpa using (List.mem_filter.1 hmem).2
    simp [hm, hlocal]

theorem buffered_flush (hs : s.Buffered) (htimer : s.moveTimer = some projectId) :
    (s.flushMoves projectId).Buffered := by
  refine ⟨fun id m hm => ?_, fun id m _ hm => ?_⟩
  · simp [flushMoves, lastMove] at hm
  · simp only [flushMoves, lastMoved_sent, sentSince_sent] at hm ⊢
    rcases hwait : lastMove id s.moveBuffer with _ | m'
    · have hnone : ((dedupeMovesById s.moveBuffer).filter
          fun m => m.id ∉ s.ghostIds projectId).filter (fun m => m.id = id) = [] := by
        rw [List.filter_comm, filter_dedupeMovesById, hwait]
        rfl
      rw [hnone, hs.sent id m hwait hm]
      rfl
    · obtain ⟨hlast, hnone, harmed⟩ := hs.waits id m' hwait
      obtain rfl := Option.some.inj (hlast.symm.trans hm)
      have hid : home id = projectId := Option.some.inj (harmed.symm.trans htimer)
      rw [filter_ghosts s hid, hwait, hnone, hid]
      rfl

theorem mem_of_lastMove (h : lastMove id moves = some m) : m ∈ moves ∧ m.id = id := by
  simpa using List.mem_of_getLast? h

theorem exists_lastMove (hm : m ∈ moves) : ∃ m', lastMove m.id moves = some m' := by
  have hmem : m ∈ moves.filter fun m' => m'.id = m.id := List.mem_filter.2 ⟨hm, by simp⟩
  exact ⟨_, List.getLast?_eq_some_getLast (List.ne_nil_of_mem hmem)⟩

/-- What is dragged waits, with what waited, for a flush for the current project. -/
theorem buffered_onNodesChange {changes : List FlowNodeChange} (hs : s.Buffered)
    (hproject : ∀ m ∈ s.moveBuffer ++ movesOf changes, home m.id = s.projectId)
    (hmoves : movesOf changes ≠ []) : (s.onNodesChange changes).Buffered := by
  simp only [onNodesChange, if_neg hmoves]
  refine ⟨fun id m hm => ?_, fun id m hwait hm => ?_⟩
  · simp only [lastMoved_moved, sentSince_moved] at hm ⊢
    have hid : home id = s.projectId := by
      obtain ⟨hmem, rfl⟩ := mem_of_lastMove hm
      exact hproject m hmem
    rw [lastMove_append] at hm
    rcases hnew : lastMove id (movesOf changes) with _ | m'
    · rw [hnew, Option.none_or] at hm
      obtain ⟨hlast, hnone, -⟩ := hs.waits id m hm
      exact ⟨by simpa using hlast, by simpa using hnone, by rw [hid]⟩
    · rw [hnew] at hm
      exact ⟨by simpa using hm, by simp, by rw [hid]⟩
  · simp only [lastMoved_moved, sentSince_moved] at hm ⊢
    rw [lastMove_append, Option.or_eq_none_iff] at hwait
    rw [hwait.1, Option.none_or] at hm
    rw [if_pos hwait.1]
    exact hs.sent id m hwait.2 hm

theorem buffered_step {a : CanvasAction} (hs : s.Buffered) (ha : s.KeepsToProject a)
    (hstep : s.step a = some t) : t.Buffered := by
  rcases a with p | ⟨p, view⟩ | _ | changes | _ | _ <;> simp only [step] at hstep
  · obtain ⟨-, rfl⟩ := Option.ite_some_none_eq_some.1 hstep
    exact ⟨hs.waits, hs.sent⟩
  · split_ifs at hstep with hview
    obtain rfl := Option.some.inj hstep
    exact ⟨hs.waits, hs.sent⟩
  · obtain ⟨-, rfl⟩ := Option.ite_some_none_eq_some.1 hstep
    exact ⟨hs.waits, hs.sent⟩
  · obtain ⟨-, rfl⟩ := Option.ite_some_none_eq_some.1 hstep
    by_cases hmoves : movesOf changes = []
    · rw [onNodesChange, if_pos hmoves]
      exact hs
    · exact buffered_onNodesChange hs (ha hmoves) hmoves
  · obtain ⟨p, htimer, rfl⟩ := Option.map_eq_some_iff.1 hstep
    exact buffered_flush hs htimer
  · obtain ⟨-, rfl⟩ := Option.ite_some_none_eq_some.1 hstep
    have hempty : s.moveBuffer = [] := ha
    have hnone (id : String) : lastMove id s.moveBuffer = none := by rw [hempty]; rfl
    exact ⟨fun id m hm => by simp [lastMove] at hm, fun id m _ hm => hs.sent id m (hnone id) hm⟩

/-! ### What breaks it -/

/-- A node that waits has its flush armed for its project, if its move is not to be lost. -/
theorem timer_of_saved (hs : s.Saved) (hlast : lastMoved id s.history = some m)
    (hnone : sentSince id s.history = []) : s.moveTimer = some (home id) := by
  obtain hsent | ⟨-, htimer, -⟩ := hs id m hlast
  · simp [hnone] at hsent
  · exact htimer

theorem keepsToProject_of_saved {a : CanvasAction} (hs : s.Buffered) (hstep : s.step a = some t)
    (ht : t.Saved) : s.KeepsToProject a := by
  rcases a with p | ⟨p, view⟩ | _ | changes | _ | _ <;> simp only [step] at hstep
  all_goals try exact trivial
  · intro hmoves m hm
    obtain ⟨-, rfl⟩ := Option.ite_some_none_eq_some.1 hstep
    simp only [onNodesChange, if_neg hmoves] at ht
    -- The last move of the node is in the buffer now, and none of it has been sent.
    have htimer : some s.projectId = some (home m.id) := by
      rcases hnew : lastMove m.id (movesOf changes) with _ | m'
      · have hold : m ∈ s.moveBuffer := by
          rcases List.mem_append.1 hm with hold | hmem
          · exact hold
          · obtain ⟨m', hm'⟩ := exists_lastMove hmem
            simp [hnew] at hm'
        obtain ⟨m', hm'⟩ := exists_lastMove hold
        obtain ⟨hlast, hnone, -⟩ := hs.waits m.id m' hm'
        exact timer_of_saved ht (by simpa [lastMoved_moved, hnew] using hlast)
          (by simpa [sentSince_moved, hnew] using hnone)
      · exact timer_of_saved ht (by rw [lastMoved_moved, hnew]; rfl)
          (by simp [sentSince_moved, hnew])
    exact (Option.some.inj htimer).symm
  · obtain ⟨-, rfl⟩ := Option.ite_some_none_eq_some.1 hstep
    by_contra hwaiting
    obtain ⟨m, hm⟩ := List.exists_mem_of_ne_nil s.moveBuffer hwaiting
    obtain ⟨m', hm'⟩ := exists_lastMove hm
    obtain ⟨hlast, hnone, -⟩ := hs.waits m.id m' hm'
    have htimer := timer_of_saved ht hlast hnone
    simp at htimer

theorem buffered_mount (projectId : String) (views : GraphViews home) :
    (mount projectId views).Buffered :=
  ⟨fun id m hm => by simp [mount, lastMove] at hm,
    fun id m _ hm => by simp [mount, lastMoved] at hm⟩

/-- In every run of the canvas the last position of each node that is dragged reaches the node's
project, once, exactly if the steps keep to the project. -/
theorem saved_throughout_iff (projectId : String) (views : GraphViews home)
    (as : List CanvasAction) : Runs.Throughout step Saved (mount projectId views) as ↔
      Runs.Along step KeepsToProject (mount projectId views) as := by
  refine Runs.throughout_iff_of_kept (I := Buffered)
    (fun s a t hs ha hstep => buffered_step hs ha hstep)
    (fun s a t hs _ hstep => ⟨keepsToProject_of_saved hs hstep, fun ha => ?_⟩)
    (buffered_mount projectId views) (saved_of_buffered (buffered_mount projectId views)) as
  exact saved_of_buffered (buffered_step hs ha hstep)

/-- The views of the projects `p` and `q`, which have a node each. -/
def twoViews : GraphViews (fun id => if id = "a" then "p" else "q") :=
  ⟨fun p => if p = "p" then some ⟨["a"], []⟩ else if p = "q" then some ⟨["b"], []⟩ else none, by
    intro p view hview
    simp only at hview
    split_ifs at hview with hp hq
    · obtain rfl := Option.some.inj hview
      simp [GraphView.Of, hp]
    · obtain rfl := Option.some.inj hview
      simp [GraphView.Of, hq]⟩

/-- A node is dragged, the canvas changes to another project, a node of that one is dragged, and the
flush sends both with the second project. -/
theorem otherProject_not_saved : ¬Runs.Throughout step Saved (mount "p" twoViews)
    [.showView, .nodesChange [.position "a" (some (.finite 1, .finite 2))], .switchProject "q",
      .showView, .nodesChange [.position "b" (some (.finite 3, .finite 4))], .flush] := by
  intro h
  have hlast := h.last (t := ⟨true, "q", twoViews, ["b"], [], none,
    [.sent ⟨"b", .finite 3, .finite 4⟩ "q", .sent ⟨"a", .finite 1, .finite 2⟩ "q",
      .moved ⟨"b", .finite 3, .finite 4⟩, .moved ⟨"a", .finite 1, .finite 2⟩]⟩) rfl
  obtain hsent | ⟨-, htimer, -⟩ := hlast "a" ⟨"a", .finite 1, .finite 2⟩ (by decide)
  · exact absurd hsent (by decide)
  · simp at htimer

end Canvas

end GraphCanvas

end BuilderPro
