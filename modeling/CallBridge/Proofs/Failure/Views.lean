import CallBridge.Failure.Log
import CallBridge.Proofs.Collection.Evicted
import Mathlib.Data.List.Count

/-!
# Views of the error log

An error log is used by handling errors, by listening and by clearing it (`Operation`). What it
holds and what it has reported follow from the history by one invariant (`Follows`), which each
operation keeps (`Follows.apply`). Main statement: all that can be asked of a log agrees with its
history, and an error that was handled before is handled again as it is (`views_agree`).
-/

namespace CallBridge.ErrorLog

open Collection

/-! ### Histories -/

/-- What is done to an error log. -/
inductive Operation where
  | handle (e : BridgeError)
  | handleCause (cause : ErrorCause) (context : ErrorContext)
  | listen
  | clear
  deriving DecidableEq, Repr

namespace Operation

def isClear : Operation → Bool
  | clear => true
  | _ => false

def isListen : Operation → Bool
  | listen => true
  | _ => false

/-- The error that an operation handles. -/
def handled? : Operation → Option BridgeError
  | handle e => some e
  | handleCause cause context => some (.classify cause context)
  | _ => none

end Operation

def apply (l : ErrorLog) : Operation → ErrorLog
  | .handle e => l.handle e
  | .handleCause cause context => (l.handleCause cause context).1
  | .listen => l.listen
  | .clear => l.clear

/-- A new log behind a number of operations. -/
def after (capacity : ℕ) (ops : List Operation) : ErrorLog := ops.foldl apply (empty capacity)

/-- The errors that operations handle, in order. -/
def handled (ops : List Operation) : List BridgeError := ops.filterMap Operation.handled?

/-- The errors handled since the last clearing. -/
def handledSince (ops : List Operation) : List BridgeError :=
  handled (sinceClear Operation.isClear ops)

/-- The errors handled since there is a listener. -/
def heard (ops : List Operation) : List BridgeError :=
  handled (ops.dropWhile fun op => !op.isListen)

variable {n : ℕ} {ops : List Operation} {op : Operation} {l : ErrorLog} {e : BridgeError}

theorem handled_concat (ops : List Operation) (op : Operation) :
    handled (ops ++ [op]) = handled ops ++ op.handled?.toList := by
  rw [handled, List.filterMap_append]
  cases op <;> rfl

theorem handledSince_concat (ops : List Operation) (op : Operation) :
    handledSince (ops ++ [op]) =
      if op.isClear then [] else handledSince ops ++ op.handled?.toList := by
  rw [handledSince, sinceClear_concat]
  split
  · rfl
  · exact handled_concat ..

theorem heard_concat (ops : List Operation) (op : Operation) :
    heard (ops ++ [op]) =
      heard ops ++ if ops.any Operation.isListen then op.handled?.toList else [] := by
  induction ops with
  | nil => cases op <;> rfl
  | cons first rest ih =>
    cases first with
    | listen => exact handled_concat (.listen :: rest) op
    | handle | handleCause | clear => exact ih

/-- Where nothing is handled, nothing is heard. -/
theorem heard_of_silent (h : op.handled? = none) : heard (ops ++ [op]) = heard ops := by
  rw [heard_concat, h]
  split <;> exact List.append_nil _

/-- What is heard behind a listening is all that is handled there. -/
theorem heard_listen (ops rest : List Operation) :
    heard (ops ++ .listen :: rest) = heard ops ++ handled rest := by
  induction ops with
  | nil => rfl
  | cons first later ih =>
    cases first with
    | listen => exact List.filterMap_append
    | handle | handleCause | clear => exact ih

/-! ### The invariant -/

/-- A log is what a history makes of a new one: it holds the last of the errors handled since the
last clearing, and has reported the errors handled since there is a listener. -/
structure Follows (n : ℕ) (ops : List Operation) (l : ErrorLog) : Prop where
  capacity : l.log.capacity = n
  entries : l.entries = (handledSince ops).rtake n
  listens : l.hasListener = ops.any Operation.isListen
  reported : l.reported = heard ops

theorem follows_empty (n : ℕ) : Follows n [] (empty n) where
  capacity := rfl
  entries := (List.rtake_nil n).symm
  listens := rfl
  reported := rfl

theorem Follows.handle (h : Follows n ops l) (hop : op.handled? = some e) :
    Follows n (ops ++ [op]) (l.handle e) := by
  obtain ⟨hclear, hlisten⟩ : op.isClear = false ∧ op.isListen = false := by
    cases op with
    | handle | handleCause => exact ⟨rfl, rfl⟩
    | listen | clear => cases hop
  have hbound : l.log.items.length ≤ l.log.capacity := by
    rw [h.capacity, ← ErrorLog.entries, h.entries]
    exact length_rtake_le ..
  refine ⟨(Buffer.capacity_push ..).trans h.capacity, ?_, ?_, ?_⟩
  · rw [handledSince_concat, hclear, hop, if_neg Bool.false_ne_true]
    calc (l.log.push e).1.items = (l.entries ++ [e]).rtake l.log.capacity :=
          Buffer.items_push hbound e
      _ = ((handledSince ops).rtake n ++ [e]).rtake n := by rw [h.entries, h.capacity]
      _ = (handledSince ops ++ [e]).rtake n := rtake_append_rtake ..
  · rw [List.any_append, List.any_cons, hlisten, List.any_nil, Bool.or_false, Bool.or_false]
    exact h.listens
  · change (if l.hasListener then l.reported ++ [e] else l.reported) = _
    rw [heard_concat, hop, h.listens, h.reported]
    split
    · rfl
    · exact (List.append_nil _).symm

theorem Follows.listen (h : Follows n ops l) : Follows n (ops ++ [.listen]) l.listen where
  capacity := h.capacity
  entries := by
    have hsame : handledSince (ops ++ [.listen]) = handledSince ops :=
      (handledSince_concat ops .listen).trans (List.append_nil _)
    rw [hsame]
    exact h.entries
  listens := by
    rw [List.any_append]
    exact (Bool.or_true _).symm
  reported := h.reported.trans (heard_of_silent rfl).symm

theorem Follows.clear (h : Follows n ops l) : Follows n (ops ++ [.clear]) l.clear where
  capacity := h.capacity
  entries := by
    rw [handledSince_concat]
    exact (List.rtake_nil n).symm
  listens := by
    rw [List.any_append]
    exact h.listens.trans (Bool.or_false _).symm
  reported := h.reported.trans (heard_of_silent rfl).symm

/-- Every operation keeps a log in step with its history. -/
theorem Follows.apply (h : Follows n ops l) (op : Operation) :
    Follows n (ops ++ [op]) (l.apply op) := by
  cases op with
  | handle e => exact h.handle rfl
  | handleCause cause context => exact h.handle rfl
  | listen => exact h.listen
  | clear => exact h.clear

/-- However a log was used, it follows its history. -/
theorem follows_after (n : ℕ) (ops : List Operation) : Follows n ops (after n ops) := by
  induction ops using List.reverseRecOn with
  | nil => exact follows_empty n
  | append_singleton ops op ih =>
    rw [after, List.foldl_concat]
    exact ih.apply op

/-! ### Views -/

/-- A part of a list is all that fits, as often as it is there and in its order. -/
def Picks (p : BridgeError → Prop) [DecidablePred p] (part es : List BridgeError) : Prop :=
  part.Sublist es ∧ ∀ e, part.count e = if p e then es.count e else 0

theorem picks_filter {p : BridgeError → Prop} [DecidablePred p] {q : BridgeError → Bool}
    (h : ∀ e, q e ↔ p e) (es : List BridgeError) : Picks p (es.filter q) es := by
  refine ⟨List.filter_sublist, fun e => ?_⟩
  split
  · next he => exact List.count_filter ((h e).2 he)
  · next he =>
    exact List.count_eq_zero.2 fun hmem => he ((h e).1 (List.mem_filter.1 hmem).2)

theorem recent_suffix (l : ErrorLog) (count : ℕ) :
    l.recent count <:+ l.entries ∧ (l.recent count).length = min count l.entries.length := by
  refine ⟨List.drop_suffix .., ?_⟩
  rw [recent, List.length_drop]
  omega

/-- An error that was made of a cause is its own cause from then on. -/
theorem handleCause_bridge (l : ErrorLog) (e : BridgeError) (context : ErrorContext) :
    l.handleCause (.bridge e) context = (l.handle e, e) := rfl

/-- However an error log was used, it holds the last of the errors handled since it was cleared, as
many as fit. The newest errors are the last of these; of each kind it shows those of the kind, and
as errors of the user those that are marked so, each in order. Listeners have heard of every error
that was handled since there is one, once and in order, whatever the log has dropped or cleared. And
an error that it gave back is handled again as it is, at any later time and whatever is said of its
place. -/
theorem views_agree (n : ℕ) (ops : List Operation) :
    let l := after n ops
    (l.entries <:+ handledSince ops ∧ l.entries.length = min n (handledSince ops).length) ∧
    (∀ k, l.recent k <:+ l.entries ∧ (l.recent k).length = min k l.entries.length) ∧
    (∀ kind, Picks (·.kind = kind) (l.ofKind kind) l.entries) ∧
    Picks (·.isUserError) l.userErrors l.entries ∧
    (l.reported = heard ops ∧
      ∀ rest, (after n (ops ++ .listen :: rest)).reported = l.reported ++ handled rest) ∧
    ∀ cause context (rest : List Operation) context',
      let first := l.handleCause cause context
      let later := rest.foldl apply first.1
      let second := later.handleCause (.bridge first.2) context'
      second.2 = first.2 ∧ second.1.entries = (later.entries ++ [first.2]).rtake n := by
  intro l
  have h : Follows n ops l := follows_after n ops
  refine ⟨⟨?_, ?_⟩, recent_suffix l, fun kind => ?_, ?_, ⟨h.reported, fun rest => ?_⟩, ?_⟩
  · rw [h.entries]
    exact rtake_suffix ..
  · rw [h.entries, List.rtake, List.length_drop]
    omega
  · exact picks_filter (fun _ => beq_iff_eq) l.entries
  · exact picks_filter (fun _ => Iff.rfl) l.entries
  · rw [(follows_after n _).reported, heard_listen, h.reported]
  · intro cause context rest context' first later second
    have hlater : Follows n (ops ++ .handleCause cause context :: rest) later := by
      have hrun := follows_after n (ops ++ .handleCause cause context :: rest)
      rwa [after, List.foldl_append] at hrun
    have hagain : second = (later.apply (.handle first.2), first.2) :=
      handleCause_bridge later first.2 context'
    have hentries := (hlater.apply (.handle first.2)).entries
    refine ⟨by rw [hagain], ?_⟩
    rw [hagain, hentries, handledSince_concat, hlater.entries, rtake_append_rtake]
    rfl

end CallBridge.ErrorLog
