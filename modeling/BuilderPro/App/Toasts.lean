import Mathlib.Algebra.Order.Group.Nat
import Mathlib.Data.List.Infix
import BuilderPro.Lib.Runs

/-!
# Toasts

`store.ts`: a queue of notices of which the first is on screen, for as long as one timer runs.  The
queue is the end of what was shown, in step with its tones, and the timer runs while there is a
notice (`run_queued`).  Each notice has its full time on screen, but for one that comes up because
the one before it, of the same text, was dropped (`onTime_iff`).
-/

namespace BuilderPro

inductive ToastTone
  | error
  | success
  deriving DecidableEq, Repr

def toastAutoDismissMs : ℕ := 4000

def toastQueueCap : ℕ := 5

structure Toasts where
  toastQueue : List String
  toastToneQueue : List ToastTone
  toast : Option String
  toastTone : ToastTone
  /-- When `toastTimer` is due. -/
  toastTimer : Option ℕ
  now : ℕ
  /-- When the notice on screen came up. -/
  shownAt : ℕ
  deriving DecidableEq, Repr

inductive ToastEvent
  | showToast (message : String) (tone : ToastTone)
  /-- The button that closes a notice. -/
  | dismissToast
  | fire
  | wait (ms : ℕ)
  deriving DecidableEq, Repr

namespace Toasts

def initial : Toasts := ⟨[], [], none, .error, none, 0, 0⟩

variable (s : Toasts)

/-- The timer, set anew. -/
def armToastTimer : Option ℕ := some (s.now + toastAutoDismissMs)

/-- The slice with other queues, and the notice on screen with them. -/
def setQueue (queue : List String) (tones : List ToastTone) : Toasts :=
  { s with
    toastQueue := queue
    toastToneQueue := tones
    toast := queue.head?
    toastTone := tones.head?.getD .error }

/-- `while (queue.length > TOAST_QUEUE_CAP) queue.shift()`. -/
def dropOldest {α : Type} (queue : List α) : List α := queue.drop (queue.length - toastQueueCap)

/-- Whether another notice drops the one on screen. -/
def Full : Prop := s.toastQueue.length = toastQueueCap

instance : Decidable s.Full := inferInstanceAs (Decidable (_ = _))

def showToast (message : String) (tone : ToastTone) : Toasts :=
  let queue := dropOldest (s.toastQueue ++ [message])
  { s.setQueue queue (dropOldest (s.toastToneQueue ++ [tone])) with
    -- armed when another text is on screen
    toastTimer := if queue.head? ≠ s.toast then s.armToastTimer else s.toastTimer
    shownAt := if s.toastQueue = [] ∨ s.Full then s.now else s.shownAt }

def dismissToast : Toasts :=
  let queue := s.toastQueue.tail
  { s.setQueue queue s.toastToneQueue.tail with
    toastTimer := if queue.head? ≠ none then s.armToastTimer else none
    shownAt := s.now }

/-- A timer fires once it is due, or later. -/
def step : ToastEvent → Option Toasts
  | .showToast message tone => some (s.showToast message tone)
  | .dismissToast => if s.toast ≠ none then some s.dismissToast else none
  | .fire =>
    match s.toastTimer with
    | some due => if due ≤ s.now then some { s with toastTimer := none }.dismissToast else none
    | none => none
  | .wait ms => some { s with now := s.now + ms }

/-- The notices an event asks for. -/
def asked : ToastEvent → List (String × ToastTone)
  | .showToast message tone => [(message, tone)]
  | _ => []

/-- The queue, of which `shown` is what was asked for so far. -/
structure Queued (shown : List (String × ToastTone)) (s : Toasts) : Prop where
  messages : s.toastQueue <:+ shown.map Prod.fst
  tones : s.toastToneQueue <:+ shown.map Prod.snd
  length : s.toastToneQueue.length = s.toastQueue.length
  cap : s.toastQueue.length ≤ toastQueueCap
  toast : s.toast = s.toastQueue.head?
  toastTone : s.toastTone = s.toastToneQueue.head?.getD .error
  timer : s.toastTimer.isSome ↔ s.toastQueue ≠ []

/-- The notice on screen stays for its full time from when it came up. -/
def OnTime : Prop := s.toastQueue ≠ [] → s.toastTimer = some (s.shownAt + toastAutoDismissMs)

/-- What drops the notice on screen brings up another text, unless it has only just come up. -/
def DropsOther : ToastEvent → Prop
  | .showToast _ _ => s.Full → s.toastQueue[1]? = s.toastQueue[0]? → s.shownAt = s.now
  | _ => True

variable {s : Toasts} {t : Toasts} {a : ToastEvent} {shown : List (String × ToastTone)}

theorem length_dropOldest {α : Type} (q : List α) :
    (dropOldest q).length = min q.length toastQueueCap := by
  unfold dropOldest
  rw [List.length_drop]
  omega

theorem dropOldest_suffix {α : Type} {q l : List α} (h : q <:+ l) (x : α) :
    dropOldest (q ++ [x]) <:+ l ++ [x] :=
  (List.drop_suffix _ _).trans (List.suffix_append_self_iff.2 h)

theorem dropOldest_concat_ne_nil {α : Type} (q : List α) (x : α) : dropOldest (q ++ [x]) ≠ [] := by
  rw [← List.length_pos_iff, length_dropOldest, List.length_append, List.length_singleton,
    toastQueueCap]
  omega

theorem Queued.showToast (h : Queued shown s) (message : String) (tone : ToastTone) :
    Queued (shown ++ [(message, tone)]) (s.showToast message tone) := by
  refine ⟨?_, ?_, ?_, ?_, rfl, rfl, ?_⟩
  · rw [List.map_append]
    exact dropOldest_suffix h.messages message
  · rw [List.map_append]
    exact dropOldest_suffix h.tones tone
  · simp only [Toasts.showToast, setQueue, length_dropOldest, List.length_append, h.length]
    rfl
  · simp only [Toasts.showToast, setQueue, length_dropOldest]
    omega
  · have hne := dropOldest_concat_ne_nil s.toastQueue message
    refine iff_of_true ?_ hne
    simp only [Toasts.showToast, setQueue]
    split_ifs with hhead
    · rfl
    · rw [not_not, h.toast] at hhead
      refine h.timer.2 fun hnil => hne ?_
      rw [hnil, List.head?_nil, List.head?_eq_none_iff] at hhead
      rw [hnil, hhead]

theorem Queued.dismissToast (h : Queued shown s) : Queued shown s.dismissToast := by
  refine ⟨(List.tail_suffix _).trans h.messages, (List.tail_suffix _).trans h.tones, ?_, ?_, rfl,
    rfl, ?_⟩
  · simp [Toasts.dismissToast, setQueue, h.length]
  · have := h.cap
    simp only [Toasts.dismissToast, setQueue, List.length_tail]
    omega
  · simp only [Toasts.dismissToast, setQueue]
    split_ifs with hnext
    · exact iff_of_true rfl (mt List.head?_eq_none_iff.2 hnext)
    · rw [not_not, List.head?_eq_none_iff] at hnext
      exact iff_of_false nofun (not_not.2 hnext)

theorem Queued.step (h : Queued shown s) (hstep : s.step a = some t) :
    Queued (shown ++ asked a) t := by
  cases a with
  | showToast message tone =>
    cases hstep
    exact h.showToast message tone
  | dismissToast =>
    simp only [Toasts.step, Option.ite_none_right_eq_some, Option.some.injEq] at hstep
    obtain ⟨-, rfl⟩ := hstep
    simpa [asked] using h.dismissToast
  | fire =>
    simp only [Toasts.step] at hstep
    split at hstep
    · simp only [Option.ite_none_right_eq_some, Option.some.injEq] at hstep
      obtain ⟨-, rfl⟩ := hstep
      have hd := h.dismissToast
      simp only [asked, List.append_nil]
      exact ⟨hd.messages, hd.tones, hd.length, hd.cap, hd.toast, hd.toastTone, hd.timer⟩
    · cases hstep
  | wait ms =>
    cases hstep
    simp only [asked, List.append_nil]
    exact ⟨h.messages, h.tones, h.length, h.cap, h.toast, h.toastTone, h.timer⟩

/-- Along every run, the queue is the end of what was asked for, in order and each text with its
tone, the notice on screen is its first, and the timer runs while there is one. -/
theorem run_queued {as : List ToastEvent} (h : Runs.run step initial as = some s) :
    Queued (as.flatMap asked) s := by
  have hall : ∀ (as : List ToastEvent) (u : Toasts) (shown : List (String × ToastTone)),
      Queued shown u → Runs.run Toasts.step u as = some s →
        Queued (shown ++ as.flatMap asked) s := by
    intro as
    induction as with
    | nil =>
      intro u shown hu hr
      obtain rfl : u = s := by simpa using hr
      simpa using hu
    | cons a as ih =>
      intro u shown hu hr
      rw [Runs.run_cons, Option.bind_eq_some_iff] at hr
      obtain ⟨v, hv, hr⟩ := hr
      have := ih v _ (hu.step hv) hr
      rwa [List.append_assoc] at this
  refine hall as initial [] ⟨?_, ?_, rfl, ?_, rfl, rfl, ?_⟩ h <;> simp [initial]

def twoNotices : List ToastEvent :=
  [.showToast "no connection" .error, .wait 10, .showToast "saved" .success, .dismissToast]

theorem queued_twoNotices : ∃ s, Runs.run step initial twoNotices = some s
    ∧ s.toast = some "saved" ∧ Queued (twoNotices.flatMap asked) s :=
  ⟨_, rfl, rfl, run_queued (rfl : Runs.run step initial twoNotices = some _)⟩

theorem onTime_dismissToast : s.dismissToast.OnTime := by
  intro hne
  have hhead : s.toastQueue.tail.head? ≠ none := mt List.head?_eq_none_iff.1 hne
  exact if_pos hhead

theorem onTime_showToast_iff (h : Queued shown s) (hp : s.OnTime) (message : String)
    (tone : ToastTone) :
    (s.showToast message tone).OnTime ↔ s.DropsOther (.showToast message tone) := by
  have hne := dropOldest_concat_ne_nil s.toastQueue message
  have honTime : (s.showToast message tone).OnTime ↔
      (if (dropOldest (s.toastQueue ++ [message])).head? ≠ s.toastQueue.head?
        then some (s.now + toastAutoDismissMs) else s.toastTimer)
      = some ((if s.toastQueue = [] ∨ s.Full then s.now else s.shownAt) + toastAutoDismissMs) := by
    rw [← h.toast]
    exact forall_prop_of_true hne
  rw [honTime, DropsOther]
  by_cases hfull : s.Full
  · -- the second notice comes up in place of the first
    have hlen : s.toastQueue.length = 5 := hfull
    have hnil : s.toastQueue ≠ [] := by
      rintro he
      rw [he] at hlen
      cases hlen
    have hhead : (dropOldest (s.toastQueue ++ [message])).head? = s.toastQueue[1]? := by
      rw [dropOldest, List.length_append, List.length_singleton, hlen, toastQueueCap,
        List.head?_drop, List.getElem?_append_left (by omega)]
    have hup : s.toastQueue = [] ∨ s.Full := .inr hfull
    rw [hhead, List.head?_eq_getElem?, if_pos hup]
    by_cases hsame : s.toastQueue[1]? = s.toastQueue[0]?
    · rw [if_neg (not_not.2 hsame), hp hnil, Option.some.injEq]
      exact ⟨fun he _ _ => Nat.add_right_cancel he, fun hd => by rw [hd hfull hsame]⟩
    · rw [if_pos hsame]
      exact iff_of_true rfl fun _ he => absurd he hsame
  · have hlt : s.toastQueue.length < toastQueueCap := lt_of_le_of_ne h.cap hfull
    have hall : dropOldest (s.toastQueue ++ [message]) = s.toastQueue ++ [message] := by
      rw [dropOldest, List.length_append, List.length_singleton, Nat.sub_eq_zero_of_le hlt,
        List.drop_zero]
    refine iff_of_true ?_ fun hf => absurd hf hfull
    rw [hall]
    by_cases hnil : s.toastQueue = []
    · simp [hnil]
    · have hold : (s.toastQueue ++ [message]).head? = s.toastQueue.head? :=
        List.head?_append_of_ne_nil _ hnil
      rw [if_neg (not_not.2 hold), if_neg (not_or.2 ⟨hnil, hfull⟩)]
      exact hp hnil

theorem step_onTime_iff (h : Queued shown s) (hp : s.OnTime) (hstep : s.step a = some t) :
    t.OnTime ↔ s.DropsOther a := by
  cases a with
  | showToast message tone =>
    cases hstep
    exact onTime_showToast_iff h hp message tone
  | dismissToast =>
    simp only [Toasts.step, Option.ite_none_right_eq_some, Option.some.injEq] at hstep
    obtain ⟨-, rfl⟩ := hstep
    exact iff_of_true onTime_dismissToast trivial
  | fire =>
    simp only [Toasts.step] at hstep
    split at hstep
    · simp only [Option.ite_none_right_eq_some, Option.some.injEq] at hstep
      obtain ⟨-, rfl⟩ := hstep
      exact iff_of_true onTime_dismissToast trivial
    · cases hstep
  | wait ms =>
    cases hstep
    exact iff_of_true hp trivial

/-- In a run every notice has its full time on screen exactly if none is dropped for one of the same
text, or only as it comes up. -/
theorem onTime_iff (as : List ToastEvent) :
    Runs.Throughout step OnTime initial as ↔ Runs.Along step DropsOther initial as := by
  refine Runs.throughout_iff (I := fun s => ∃ shown, Queued shown s)
    (fun _ _ _ hs ht => ⟨_, hs.choose_spec.step ht⟩)
    (fun _ _ _ hs hp ht => step_onTime_iff hs.choose_spec hp ht) ⟨[], ?_⟩ ?_ as
  · refine ⟨?_, ?_, rfl, ?_, rfl, rfl, ?_⟩ <;> simp [initial]
  · simp [OnTime, initial]

end Toasts

end BuilderPro
