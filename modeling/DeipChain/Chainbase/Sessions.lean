import DeipChain.Chainbase.Failures

/-!
# The sessions under an index

The undo states of an index are differences. `Stacked` reads them as whole contents: under
each undo state there is an index that its session was opened on, down to one with an empty
stack. Each member function moves along this reading: a new session puts the contents of its
start on it, undo goes back to the newest ones, squash forgets them, and commit forgets those
of the old end.

The sessions are numbered without gaps and the newest one has the revision of the index, so
what commit drops is a matter of numbers alone.
-/
namespace DeipChain.Chainbase

open Std OrderedMap Snapshots

variable {V K : Type}

/-- What an index contains, without its undo stack. -/
structure Contents (V : Type) where
  indices : Objects V
  nextId : Nat
  deriving DecidableEq

def GenericIndex.contents (index : GenericIndex V) : Contents V :=
  { indices := index.indices, nextId := index.nextId }

/-- An index with these contents and no session. -/
def Contents.bare (contents : Contents V) : GenericIndex V :=
  { stack := [], revision := 0, nextId := contents.nextId, indices := contents.indices }

/-- The contents of an index as constructed. -/
def Contents.empty : Contents V := (GenericIndex.empty : GenericIndex V).contents

theorem sameObjects_iff {first second : GenericIndex V} :
    SameObjects first second ↔ first.contents = second.contents := by
  simp only [SameObjects, GenericIndex.contents, Contents.mk.injEq]

theorem sameObjects_bare (index : GenericIndex V) : SameObjects index index.contents.bare :=
  ⟨rfl, rfl⟩

theorem contents_squash (index : GenericIndex V) : index.squash.contents = index.contents := by
  rw [GenericIndex.contents, GenericIndex.indices_squash, GenericIndex.nextId_squash]
  rfl

variable [DecidableEq K] {keys : List (V → K)}

/-- What a call does to the contents, whether it returns or throws. -/
def Call.effect (keys : List (V → K)) (call : Call V) (contents : Contents V) : Contents V :=
  (call.caught keys contents.bare).contents

theorem Call.contents_caught (call : Call V) (index : GenericIndex V) :
    (call.caught keys index).contents = call.effect keys index.contents :=
  sameObjects_iff.mp ((sameObjects_bare index).caught call)

/-- The loop of `undo_all`, for as many rounds as are given. -/
def GenericIndex.undoRounds (keys : List (V → K)) : Nat → GenericIndex V → Outcome V
  | 0, index => .ok () index
  | rounds + 1, index =>
    match index.stack with
    | [] => .ok () index
    | _ :: _ =>
      match index.undo keys with
      | .error thrown reached => .error thrown reached
      | .ok _ reached => undoRounds keys rounds reached

/-- `undo_all`: an undo that returns has taken a state off the stack, so the rounds
suffice. -/
def GenericIndex.undoAll (keys : List (V → K)) (index : GenericIndex V) : Outcome V :=
  undoRounds keys index.stack.length index

/-- The contents at the start of every open session, newest first. -/
inductive Stacked (keys : List (V → K)) : GenericIndex V → List (Contents V) → Prop
  | bottom {index : GenericIndex V} (kept : WellKept keys index) (closed : index.stack = []) :
      Stacked keys index []
  | session {base index : GenericIndex V} {saved : List (Contents V)}
      (session : Session keys base index) (below : Stacked keys base saved) :
      Stacked keys index (base.contents :: saved)

theorem stacked_empty (keys : List (V → K)) : Stacked keys (GenericIndex.empty : GenericIndex V) [] :=
  .bottom (wellKept_empty keys) rfl

/-- All contents down the stack can be gone back to one after the other. -/
def Restores (keys : List (V → K)) : Objects V → List (Contents V) → Prop
  | _, [] => True
  | current, first :: rest =>
    Restorable keys first.indices current ∧ Restores keys first.indices rest

instance decidableRestores (keys : List (V → K)) :
    (current : Objects V) → (saved : List (Contents V)) → Decidable (Restores keys current saved)
  | _, [] => .isTrue trivial
  | current, first :: rest =>
    have := decidableRestores keys first.indices rest
    inferInstanceAs (Decidable (Restorable keys first.indices current ∧ _))

/-- A caught call that meets no key keeps the index managed. -/
theorem WellKept.caught {index : GenericIndex V} {call : Call V} (kept : WellKept keys index)
    (free : call.meetsKey keys index = false) : WellKept keys (call.caught keys index) := by
  unfold Call.caught
  cases applied : call.apply keys index with
  | error thrown reached =>
    rw [Call.error_unchanged free applied]
    exact kept
  | ok result reached =>
    cases call with
    | emplace constructor => exact kept.emplace applied
    | modify id modifier => exact kept.modify applied
    | remove id => exact kept.remove applied

/-- The bookkeeping never opens or closes a session, nor does it change the revision. -/
theorem onHead_frame (index : GenericIndex V) (change : UndoState V → UndoState V) :
    (index.onHead change).stack.length = index.stack.length ∧
      (index.onHead change).revision = index.revision := by
  unfold GenericIndex.onHead
  split
  · exact ⟨rfl, rfl⟩
  · rename_i head rest onTop
    exact ⟨by rw [onTop]; rfl, rfl⟩

theorem Call.caught_frame (call : Call V) (index : GenericIndex V) :
    (call.caught keys index).stack.length = index.stack.length ∧
      (call.caught keys index).revision = index.revision := by
  cases call with
  | emplace constructor =>
    simp only [Call.caught, Call.apply, GenericIndex.emplace]
    cases emplaceElement keys index.indices index.nextId (constructor index.nextId) with
    | none => exact ⟨rfl, rfl⟩
    | some inserted => exact onHead_frame _ _
  | modify id modifier =>
    simp only [Call.caught, Call.apply, GenericIndex.modify]
    cases index.indices[id]? with
    | none => exact ⟨rfl, rfl⟩
    | some value =>
      dsimp only
      split
      · exact onHead_frame index _
      · exact onHead_frame index _
  | remove id =>
    simp only [Call.caught, Call.apply, GenericIndex.remove]
    cases index.indices[id]? with
    | none => exact ⟨rfl, rfl⟩
    | some value => exact onHead_frame index _

namespace Stacked

variable {index reached : GenericIndex V} {saved : List (Contents V)}

theorem kept (stacked : Stacked keys index saved) : WellKept keys index := by
  cases stacked with
  | bottom kept closed => exact kept
  | session session below => exact session.kept

/-- One saved contents for each undo state. -/
theorem length_eq (stacked : Stacked keys index saved) : index.stack.length = saved.length := by
  induction stacked with
  | bottom kept closed => rw [closed, List.length_nil, List.length_nil]
  | session session below inductionHypothesis =>
    obtain ⟨head, onTop, -⟩ := session.top
    rw [onTop, List.length_cons, List.length_cons, inductionHypothesis]

theorem closed_iff (stacked : Stacked keys index saved) : index.stack = [] ↔ saved = [] := by
  rw [← List.length_eq_zero_iff, ← List.length_eq_zero_iff, stacked.length_eq]

theorem start (stacked : Stacked keys index saved) :
    Stacked keys index.startUndoSession (index.contents :: saved) :=
  .session (session_start stacked.kept) stacked

theorem caught {call : Call V} (stacked : Stacked keys index saved)
    (free : call.meetsKey keys index = false) : Stacked keys (call.caught keys index) saved := by
  cases stacked with
  | bottom kept closed =>
    have length := (@Call.caught_frame V K _ keys call index).1
    rw [closed] at length
    exact .bottom (kept.caught free) (List.length_eq_zero_iff.mp length)
  | session session below => exact .session (session.caught free) below

/-- Undo, when it returns, goes back to the newest saved contents. -/
theorem of_undo {first : Contents V} (stacked : Stacked keys index (first :: saved))
    (done : index.undo keys = .ok () reached) :
    Stacked keys reached saved ∧ reached.contents = first ∧
      reached.revision = index.revision - 1 := by
  cases stacked with
  | session session below =>
    have back := session.eq_of_undo done
    subst back
    refine ⟨below, rfl, ?_⟩
    rw [session.revision]
    omega

/-- It returns exactly for contents that can be gone back to. -/
theorem undo_iff {first : Contents V} (stacked : Stacked keys index (first :: saved)) :
    (∃ reached, index.undo keys = .ok () reached) ↔
      Restorable keys first.indices index.indices := by
  cases stacked with
  | session session below =>
    constructor
    · rintro ⟨reached, done⟩
      have back := session.eq_of_undo done
      subst back
      exact session.undo_iff.mp done
    · intro restorable
      exact ⟨_, session.undo_iff.mpr restorable⟩

/-- A squashed session is forgotten, and the one below it goes on. -/
theorem squash (stacked : Stacked keys index saved) :
    Stacked keys index.squash saved.tail := by
  cases stacked with
  | bottom kept closed =>
    have same : index.squash = index := by rw [GenericIndex.squash, closed]
    rw [same]
    exact .bottom kept closed
  | session session below =>
    cases below with
    | bottom kept closed =>
      obtain ⟨head, onTop, -⟩ := session.top
      have dropped : index.squash = { index with stack := [] } := by
        rw [GenericIndex.squash, onTop, closed]
      rw [dropped]
      exact .bottom ⟨session.kept.unique, session.kept.below⟩ rfl
    | session outer lower => exact .session (outer.squash session) lower

/-- The number of the newest session is given back, unless it was the only one. -/
theorem revision_squash (stacked : Stacked keys index saved) :
    index.squash.revision = if saved.length < 2 then index.revision else index.revision - 1 := by
  have length := stacked.length_eq
  unfold GenericIndex.squash
  split
  · rename_i closed
    rw [closed, List.length_nil] at length
    rw [if_pos (by omega)]
  · rename_i lone
    rw [lone, List.length_cons, List.length_nil] at length
    rw [if_pos (by omega)]
  · rename_i head second rest several
    rw [several, List.length_cons, List.length_cons] at length
    rw [if_neg (by omega)]

/-- The sessions of the old end can be dropped. -/
theorem take (stacked : Stacked keys index saved) (number : Nat) :
    Stacked keys { index with stack := index.stack.take number } (saved.take number) := by
  induction stacked generalizing number with
  | bottom kept closed =>
    rw [List.take_nil, closed, List.take_nil]
    exact .bottom ⟨kept.unique, kept.below⟩ rfl
  | @session base index saved session below inductionHypothesis =>
    cases number with
    | zero => exact .bottom ⟨session.kept.unique, session.kept.below⟩ rfl
    | succ number =>
      obtain ⟨head, onTop, next, numbered, records⟩ := session.top
      have shortened : Session keys { base with stack := base.stack.take number }
          { index with stack := index.stack.take (number + 1) } :=
        { top := ⟨head, by rw [onTop, List.take_succ_cons], next, numbered, records⟩
          revision := session.revision
          start := ⟨session.start.unique, session.start.below⟩
          grown := session.grown
          kept := ⟨session.kept.unique, session.kept.below⟩ }
      have upper := Stacked.session shortened (inductionHypothesis number)
      exact upper

/-- What commit leaves: the sessions with a number above the given one, which are the newest
ones.

Proof: by induction on the sessions. The newest has the revision of the index; when it is
dropped, so are all below, and when it stays, the rest of the stack is committed as the index
below would be. -/
theorem commit_eq (stacked : Stacked keys index saved) (revision : Int) :
    index.commit revision =
      { index with stack := index.stack.take (index.revision - revision).toNat } := by
  rw [GenericIndex.commit]
  congr 1
  induction stacked with
  | bottom kept closed => simp only [closed, List.reverse_nil, List.dropWhile_nil, List.take_nil]
  | @session base index saved session below inductionHypothesis =>
    obtain ⟨head, onTop, next, numbered, records⟩ := session.top
    have one := session.revision
    rw [onTop, List.reverse_cons, List.dropWhile_append]
    by_cases low : index.revision ≤ revision
    · have all : (base.revision - revision).toNat = 0 := by omega
      rw [all, List.take_zero, List.reverse_eq_nil_iff] at inductionHypothesis
      have none : (index.revision - revision).toNat = 0 := by omega
      have dropped : head.revision ≤ revision := by omega
      simp only [inductionHypothesis, List.isEmpty_nil, if_true, none, List.take_zero,
        List.dropWhile_cons, dropped, decide_true, List.dropWhile_nil, List.reverse_nil]
    · have more : (index.revision - revision).toNat = (base.revision - revision).toNat + 1 := by
        omega
      have stays : ¬ head.revision ≤ revision := by omega
      rw [more, List.take_succ_cons, ← inductionHypothesis]
      split
      · rename_i nothing
        rw [List.isEmpty_iff.mp nothing]
        simp only [List.dropWhile_cons, stays, decide_false, Bool.false_eq_true, if_false,
          List.reverse_cons, List.reverse_nil, List.nil_append]
      · rw [List.reverse_append, List.reverse_singleton, List.singleton_append]

theorem commit (stacked : Stacked keys index saved) (revision : Int) :
    Stacked keys (index.commit revision)
      (saved.take (index.revision - revision).toNat) := by
  rw [stacked.commit_eq revision]
  exact stacked.take _

/-- Undoing all sessions goes back to the oldest saved contents, with the stack empty. -/
theorem of_undoRounds (stacked : Stacked keys index saved)
    (done : index.undoRounds keys saved.length = .ok () reached) :
    Stacked keys reached [] ∧ reached.contents = saved.getLastD index.contents ∧
      reached.revision = index.revision - saved.length := by
  induction saved generalizing index with
  | nil =>
    cases done
    exact ⟨stacked, rfl, (Int.sub_zero _).symm⟩
  | cons first rest inductionHypothesis =>
    rw [List.length_cons, GenericIndex.undoRounds] at done
    split at done
    · rename_i closed
      exact absurd (stacked.closed_iff.mp closed) (List.cons_ne_nil _ _)
    · split at done
      · cases done
      · rename_i _ _ _ middle undone
        obtain ⟨lower, contents, revision⟩ := stacked.of_undo undone
        obtain ⟨last, oldest, number⟩ := inductionHypothesis lower done
        refine ⟨last, ?_, ?_⟩
        · rw [oldest, contents]
          cases rest with
          | nil => rfl
          | cons second others => simp only [List.getLastD_cons]
        · rw [number, revision, List.length_cons]
          omega

theorem undoRounds_iff (stacked : Stacked keys index saved) :
    (∃ reached, index.undoRounds keys saved.length = .ok () reached) ↔
      Restores keys index.indices saved := by
  induction saved generalizing index with
  | nil => exact ⟨fun _ => trivial, fun _ => ⟨index, rfl⟩⟩
  | cons first rest inductionHypothesis =>
    have opened : index.stack ≠ [] := by
      rw [ne_eq, stacked.closed_iff]
      exact List.cons_ne_nil _ _
    obtain ⟨head, others, onTop⟩ := List.exists_cons_of_ne_nil opened
    simp only [List.length_cons, GenericIndex.undoRounds, onTop, Restores]
    rw [← stacked.undo_iff]
    constructor
    · rintro ⟨reached, done⟩
      split at done
      · cases done
      · rename_i _ _ middle undone
        obtain ⟨lower, contents, -⟩ := stacked.of_undo undone
        refine ⟨⟨middle, undone⟩, ?_⟩
        have further := (inductionHypothesis lower).mp ⟨reached, done⟩
        rwa [← contents]
    · rintro ⟨⟨middle, undone⟩, further⟩
      obtain ⟨lower, contents, -⟩ := stacked.of_undo undone
      rw [← contents] at further
      obtain ⟨reached, done⟩ := (inductionHypothesis lower).mpr further
      exact ⟨reached, by rw [undone]; exact done⟩

end Stacked

end DeipChain.Chainbase
