import Mathlib.Logic.Function.Basic
import SkipCode.Proofs.LoopExits

/-!
# Whose frame a loop closes

Several loops can be written at once to one list, with their frames on one stack. A frame does not
say whose it is: a loop takes the innermost frame for its own if the frame starts where the loop
does. So two loops that were set up at the same position close each other's frames, and give their
own targets to each other's exits.

* `LoopSite`: loops that are written at once, with a note of who opened each frame and of where each
  exit was registered;
* `LoopSite.Sound`: what holds as long as no two loops start at the same position, kept by every
  call (`Sound.perform`) and so by every sequence of calls (`Sound.after`);
* `closes_own_frame`: then only the loop that opened a frame closes its body with it, and only that
  loop gives the exits that were registered there their counts;
* `closes_frame_of_other`: two loops that start at the same position, of which the outer closes its
  body with the frame of the inner.
-/

namespace SkipCode

open Lower (LoopExit)

/-- What happens where several loops are written. Loops are told apart by numbers. -/
inductive LoopCall where
  | setup (loop scopeDepth : Nat)
  | guard (loop : Nat) (condition : Option Element)
  | epilogue (loop : Nat)
  | finish (loop : Nat) (tail : List Action)
  /-- Pushes a skip and lets it wait in the frame that is `depth` frames out. -/
  | exit (kind : LoopExit) (depth : UInt32) (floor : Nat)
  | push (actions : List Action)

/-- The calls that close a loop or its body. -/
inductive LoopCall.Closes : LoopCall → Nat → Prop
  | epilogue {i : Nat} : Closes (.epilogue i) i
  | finish {i : Nat} {tail : List Action} : Closes (.finish i tail) i

/-- Loops that are written to one list, with their frames on one stack. -/
structure LoopSite where
  loops : Nat → LoopBlock
  flow : Flow
  /-- The loops that opened the frames, innermost first. -/
  owners : List Nat
  /-- The skips that were registered, each with the owner of the frame that it was registered in. -/
  exits : List (Nat × Nat)

namespace LoopSite

/-- Before anything is written. There are loops of any kinds. -/
def new (kinds : Nat → LoopKind) : LoopSite := ⟨fun i => .new (kinds i), ⟨.empty, .empty⟩, [], []⟩

/-- A step on one loop. A frame that it opens is noted as its own. -/
def onLoop (site : LoopSite) (i : Nat) (m : LoopBlock.Step Unit) :
    Except LowerError Unit × LoopSite :=
  let (answer, block, flow) := Attempt.run m (site.loops i, site.flow)
  let before := site.flow.loops.depth
  let now := flow.loops.depth
  (answer, { site with
    loops := Function.update site.loops i block
    flow
    owners := List.replicate (now - before) i ++ site.owners.drop (before - now) })

def leave (site : LoopSite) (kind : LoopExit) (depth : UInt32) (floor : Nat) :
    Except LowerError Unit × LoopSite :=
  let skip := site.flow.list.length
  let list := site.flow.list.pushSkip none
  match kind.wait depth site.flow.loops floor skip with
  | .error e => (.error e, { site with flow := { site.flow with list } })
  | .ok loops => (.ok (), { site with
      flow := ⟨list, loops⟩
      exits := (site.owners[depth.toNat]?).toList.map (skip, ·) ++ site.exits })

/-- What a call answers and leaves. A call that fails leaves what it did before it failed. -/
def perform (site : LoopSite) : LoopCall → Except LowerError Unit × LoopSite
  | .setup i scopeDepth => site.onLoop i (LoopBlock.setup scopeDepth)
  | .guard i condition => site.onLoop i (LoopBlock.guard condition)
  | .epilogue i => site.onLoop i LoopBlock.epilogue
  | .finish i tail => site.onLoop i (LoopBlock.finish tail)
  | .exit kind depth floor => site.leave kind depth floor
  | .push actions =>
    (.ok (), { site with flow := { site.flow with list := site.flow.list.extend actions } })

/-- What is left after a sequence of calls. -/
def after (site : LoopSite) (calls : List LoopCall) : LoopSite :=
  calls.foldl (fun site call => (site.perform call).2) site

/-- Different loops that have been set up start at different positions. -/
def Apart (site : LoopSite) : Prop :=
  ∀ i j, (site.loops i).stage ≠ .unset → (site.loops j).stage ≠ .unset →
    (site.loops i).start = (site.loops j).start → i = j

end LoopSite

/-! ## What a list keeps -/

/-- A list goes on, and keeps what it has but at the given positions. -/
structure ActionList.GoesOn (l : ActionList) (patched : List Nat) (m : ActionList) : Prop where
  length : l.length ≤ m.length
  keeps : ∀ p < l.length, p ∉ patched → m.get? p = l.get? p

namespace ActionList.GoesOn

variable {l m n : ActionList} {patched : List Nat}

/-- A list goes on from itself. -/
theorem refl (l : ActionList) (patched : List Nat) : l.GoesOn patched l :=
  ⟨Nat.le_refl _, fun _ _ _ => rfl⟩

/-- A list goes on through another. -/
theorem trans (h₁ : l.GoesOn patched m) (h₂ : m.GoesOn patched n) : l.GoesOn patched n :=
  ⟨Nat.le_trans h₁.length h₂.length, fun p inside other =>
    (h₂.keeps p (Nat.lt_of_lt_of_le inside h₁.length) other).trans (h₁.keeps p inside other)⟩

/-- What went on with few patches went on with more. -/
theorem mono {more : List Nat} (h : l.GoesOn patched m) (sub : patched ⊆ more) : l.GoesOn more m :=
  ⟨h.length, fun p inside other => h.keeps p inside fun mem => other (sub mem)⟩

/-- A list goes on by actions at its end. -/
theorem extend (l : ActionList) (patched : List Nat) (actions : List Action) :
    l.GoesOn patched (l.extend actions) := by
  refine ⟨by simp, fun p inside _ => ?_⟩
  rw [get?_eq_toList, toList_extend, List.getElem?_append_left (by simpa using inside),
    ← get?_eq_toList]

/-- So by one action. -/
theorem push (l : ActionList) (patched : List Nat) (a : Action) : l.GoesOn patched (l.push a) :=
  extend l patched [a]

/-- So by patching one of the named positions. -/
theorem resolveHere {p : Nat} (mem : p ∈ patched) (h : l.resolveHere p = .ok m) :
    l.GoesOn patched m := by
  refine ⟨Nat.le_of_eq (length_resolveHere h).symm, fun q _ other => ?_⟩
  obtain ⟨a, -, -, e⟩ := resolve_eq_ok_iff.1 h
  have ne : p ≠ q := fun same => other (same ▸ mem)
  rw [get?_eq_toList, e, List.getElem?_set_ne ne, ← get?_eq_toList]

end ActionList.GoesOn

/-! ## What the steps of a loop do, also when they fail -/

namespace LoopBlock

variable {α β : Type} {b : LoopBlock} {flow : Flow} {patched : List Nat}

/-- Setting an index changes the list alone. -/
theorem run_setIndex (value : Element → Element) (b : LoopBlock) (flow : Flow) :
    Attempt.run (setIndex value) (b, flow) =
      match indexWrite b.kind value with
      | .error e => (.error e, b, flow)
      | .ok actions => (.ok (), b, ⟨flow.list.extend actions, flow.loops⟩) := by
  obtain ⟨kind, stage, start, exit, breaks⟩ := b
  cases kind with
  | «while» => rfl
  | «for» => rfl
  | forEach array index =>
    unfold setIndex
    rw [Attempt.run_bind, Attempt.run_get]
    dsimp only
    rw [Attempt.run_bind, Attempt.run_lift]
    unfold indexWrite
    dsimp only
    cases index.set "foreach index" (value index.get) [] <;> rfl

/-- Resolving changes nothing but the list, and that only at the positions given. -/
theorem resolveAllHere_patches (positions : List Nat) (b : LoopBlock) (flow : Flow) :
    ∃ r list, flow.list.GoesOn positions list ∧
      Attempt.run (resolveAllHere positions) (b, flow) = (r, b, ⟨list, flow.loops⟩) := by
  induction positions generalizing flow with
  | nil => exact ⟨_, _, .refl _ _, rfl⟩
  | cons p rest ih =>
    have one : Attempt.run (resolveAllHere (p :: rest)) (b, flow) =
        Attempt.run ((do
          let s ← get
          set (s.1, { s.2 with list := ← (s.2.list.resolveHere p : Except LowerError _) })) >>=
            fun _ => resolveAllHere rest) (b, flow) := rfl
    rw [one, Attempt.run_bind, Attempt.run_bind, Attempt.run_get]
    dsimp only
    rw [Attempt.run_bind, Attempt.run_lift]
    cases done : flow.list.resolveHere p with
    | error e => exact ⟨_, _, .refl _ _, rfl⟩
    | ok l =>
      -- the others are resolved in the list that resolving the first one gave
      obtain ⟨r, list, goes, ran⟩ := ih ⟨l, flow.loops⟩
      exact ⟨r, list, .trans (.resolveHere List.mem_cons_self done)
        (goes.mono (List.subset_cons_self _ _)), ran⟩

/-- A step that is given up neither changes the loop nor what it writes to. -/
def GivesUp (m : Step α) (b : LoopBlock) (flow : Flow) : Prop :=
  ∃ e, Attempt.run m (b, flow) = (.error e, b, flow)

/-- A step leaves the frames alone and gives counts to skips at the given positions only. The loop
keeps its start, and waits for nothing that it did not wait for. -/
structure Tidies (patched : List Nat) (s t : LoopBlock × Flow) : Prop where
  loops : t.2.loops = s.2.loops
  list : s.2.list.GoesOn patched t.2.list
  start : t.1.start = s.1.start
  stage : s.1.stage ≠ .unset → t.1.stage ≠ .unset
  exit : ∀ p, t.1.exit = some p → s.1.exit = some p
  breaks : t.1.breaks ⊆ s.1.breaks

namespace Tidies

variable {s t u : LoopBlock × Flow}

/-- Doing nothing is tidy. -/
theorem refl (patched : List Nat) (s : LoopBlock × Flow) : Tidies patched s s :=
  ⟨rfl, .refl _ _, rfl, id, fun _ => id, List.Subset.refl _⟩

/-- Two tidy changes are one. -/
theorem trans (h₁ : Tidies patched s t) (h₂ : Tidies patched t u) : Tidies patched s u :=
  ⟨h₂.loops.trans h₁.loops, h₁.list.trans h₂.list, h₂.start.trans h₁.start, h₂.stage ∘ h₁.stage,
    fun p h => h₁.exit p (h₂.exit p h), List.Subset.trans h₂.breaks h₁.breaks⟩

/-- Tidy steps compose. -/
theorem bind {m : Step α} {f : α → Step β} (hm : Tidies patched s (Attempt.run m s).2)
    (hf : ∀ a t, Attempt.run m s = (.ok a, t) → Tidies patched t (Attempt.run (f a) t).2) :
    Tidies patched s (Attempt.run (m >>= f) s).2 := by
  rw [Attempt.run_bind]
  rcases e : Attempt.run m s with ⟨_ | a, t⟩
  · rw [e] at hm
    exact hm
  · rw [e] at hm
    exact hm.trans (hf a t e)

/-- A change of the list is tidy if the list goes on. -/
theorem modifyList {f : ActionList → ActionList} (h : ∀ l : ActionList, l.GoesOn patched (f l))
    (s : LoopBlock × Flow) : Tidies patched s (Attempt.run (LoopBlock.modifyList f) s).2 :=
  ⟨rfl, h _, rfl, id, fun _ => id, List.Subset.refl _⟩

/-- A change of the block is tidy if its beginning and exits stay. -/
theorem modifyBlock {f : LoopBlock → LoopBlock} (s : LoopBlock × Flow)
    (start : (f s.1).start = s.1.start) (stage : s.1.stage ≠ .unset → (f s.1).stage ≠ .unset)
    (exit : ∀ p, (f s.1).exit = some p → s.1.exit = some p) (breaks : (f s.1).breaks ⊆ s.1.breaks) :
    Tidies patched s (Attempt.run (LoopBlock.modifyBlock f) s).2 :=
  ⟨rfl, .refl _ _, start, stage, exit, breaks⟩

/-- Setting an index is tidy. -/
theorem setIndex (value : Element → Element) (s : LoopBlock × Flow) :
    Tidies patched s (Attempt.run (LoopBlock.setIndex value) s).2 := by
  obtain ⟨b, flow⟩ := s
  rw [run_setIndex]
  split
  · exact .refl _ _
  · exact ⟨rfl, .extend _ _ _, rfl, id, fun _ => id, List.Subset.refl _⟩

/-- Patching named positions is tidy. -/
theorem resolveAllHere {positions : List Nat} (sub : positions ⊆ patched) (s : LoopBlock × Flow) :
    Tidies patched s (Attempt.run (LoopBlock.resolveAllHere positions) s).2 := by
  obtain ⟨b, flow⟩ := s
  obtain ⟨r, list, goes, ran⟩ := resolveAllHere_patches positions b flow
  rw [ran]
  exact ⟨rfl, goes.mono sub, rfl, id, fun _ => id, List.Subset.refl _⟩

end Tidies

/-- A step in the wrong stage is refused and changes nothing. -/
theorem run_unexpected {stage : Stage} (step : String) (flow : Flow) (other : b.stage ≠ stage) :
    Attempt.run (expect stage step) (b, flow) =
      (.error (.defect (.wrongStage step b.stage stage)), b, flow) := by
  simp only [expect, Attempt.run_bind, Attempt.run_get, Attempt.run_lift, expectStage, if_neg other]

/-- A setup is given up, or it opens a frame that starts where the loop does. -/
theorem setup_cases (depth : Nat) (b : LoopBlock) (flow : Flow) :
    GivesUp (setup depth) b flow ∨ b.stage = .unset ∧ ∃ start list, flow.list.GoesOn [] list ∧
      Attempt.run (setup depth) (b, flow) = (.ok (), { b with start, stage := .setup },
        ⟨list, flow.loops.push (.new start depth)⟩) := by
  unfold GivesUp setup
  rw [Attempt.run_bind]
  by_cases unset : b.stage = .unset
  · rw [run_expect unset]
    dsimp only
    rw [Attempt.run_bind, run_setIndex]
    cases indexWrite b.kind fun _ => .ofNat 0 with
    | error e => exact Or.inl ⟨e, rfl⟩
    | ok zero => exact Or.inr ⟨unset, _, _, .extend _ _ zero, rfl⟩
  · rw [run_unexpected _ _ unset]
    exact Or.inl ⟨_, rfl⟩

/-- A guard is given up, or it notes the exit that it writes. -/
theorem guard_cases (condition : Option Element) (b : LoopBlock) (flow : Flow) :
    GivesUp (guard condition) b flow ∨ b.stage = .setup ∧ ∃ list, flow.list.GoesOn [] list ∧
      flow.list.length < list.length ∧ Attempt.run (guard condition) (b, flow) =
        (.ok (), { b with exit := some flow.list.length, stage := .guarded },
          ⟨list, flow.loops⟩) := by
  unfold GivesUp guard
  rw [Attempt.run_bind]
  by_cases ready : b.stage = .setup
  · rw [run_expect ready]
    dsimp only
    rw [Attempt.run_bind, Attempt.run_get]
    dsimp only
    rw [Attempt.run_bind, Attempt.run_lift]
    cases exitCondition b.kind condition with
    | error e => exact Or.inl ⟨e, rfl⟩
    | ok exit =>
      refine Or.inr ⟨ready, _, .push _ _ _, ?_, rfl⟩
      exact Nat.lt_of_lt_of_eq (Nat.lt_succ_self _) (ActionList.length_push ..).symm
  · rw [run_unexpected _ _ ready]
    exact Or.inl ⟨_, rfl⟩

/-- An epilogue fails before it takes a frame, or it takes the innermost one. Then it is refused if
that starts elsewhere, and otherwise it gives counts to what waits there for the next round. -/
theorem epilogue_cases (b : LoopBlock) (flow : Flow) :
    (∃ d, Attempt.run epilogue (b, flow) = (.error (.defect d), b, flow)) ∨
    ∃ frame rest, flow.loops.frames = frame :: rest ∧ b.stage = .guarded ∧
      (frame.start ≠ b.start ∧ Attempt.run epilogue (b, flow) =
          (.error (.defect (.loopsOutOfOrder b.start frame.start)), b, ⟨flow.list, ⟨rest⟩⟩) ∨
        frame.start = b.start ∧ ∃ r b' list, flow.list.GoesOn frame.continues list ∧
          Attempt.run epilogue (b, flow) = (r, b', ⟨list, ⟨rest⟩⟩) ∧
          (r = .ok () ∧ b' = { b with breaks := frame.breaks, stage := .epilogue } ∨
            (∃ e, r = .error e) ∧ b' = b)) := by
  unfold epilogue takeFrame
  rw [Attempt.run_bind]
  by_cases entered : b.stage = .guarded
  · rw [run_expect entered]
    dsimp only
    rw [Attempt.run_bind, Attempt.run_bind, Attempt.run_get]
    dsimp only
    rw [Attempt.run_bind, Attempt.run_lift]
    cases found : flow.loops.frames with
    | nil =>
      have none : flow.loops.pop = .error (.defect .noLoopFrame) := by
        unfold LoopStack.pop
        rw [found]
      rw [none]
      exact Or.inl ⟨_, rfl⟩
    | cons frame rest =>
      have popped : flow.loops.pop = .ok (frame, ⟨rest⟩) := by
        unfold LoopStack.pop
        rw [found]
      -- the frame is gone from here on, whether the loop may have it or not
      rw [popped]
      refine Or.inr ⟨frame, rest, rfl, entered, ?_⟩
      dsimp only
      rw [Attempt.run_bind, Attempt.run_set]
      dsimp only
      rw [Attempt.run_pure]
      dsimp only
      rw [Attempt.run_bind, Attempt.run_get]
      dsimp only
      by_cases own : frame.start = b.start
      · refine Or.inr ⟨own, ?_⟩
        rw [if_neg (not_not.2 own), Attempt.run_bind]
        obtain ⟨r, list, goes, ran⟩ := resolveAllHere_patches frame.continues b ⟨flow.list, ⟨rest⟩⟩
        rw [ran]
        cases r with
        | error e => exact ⟨_, _, list, goes, rfl, Or.inr ⟨⟨e, rfl⟩, rfl⟩⟩
        | ok _ => exact ⟨_, _, list, goes, rfl, Or.inl ⟨rfl, rfl⟩⟩
      · refine Or.inl ⟨own, ?_⟩
        rw [if_pos own]
        rfl
  · rw [run_unexpected _ _ entered]
    exact Or.inl ⟨_, rfl⟩

/-- What a loop whose body is closed, or that cannot be closed, does at its end. -/
theorem finish_tidies (tail : List Action) (flow : Flow) (closed : b.stage ≠ .guarded) :
    Tidies (b.exit.toList ++ b.breaks) (b, flow) (Attempt.run (finish tail) (b, flow)).2 := by
  unfold finish
  rw [Attempt.run_bind, Attempt.run_get]
  dsimp only
  rw [if_neg closed]
  rw [Attempt.run_bind]
  by_cases ended : b.stage = .epilogue
  · rw [run_expect ended]
    dsimp only
    refine .bind (.setIndex _ _) ?_
    rintro _ ⟨b', flow'⟩ written
    obtain ⟨_, -, rfl, rfl⟩ := run_setIndex_ok written
    rw [Attempt.run_bind, Attempt.run_get]
    dsimp only
    refine .bind (.modifyList (fun l => .push l _ _) _) ?_
    rintro _ _ ⟨⟩
    cases leaves : b'.exit with
    | none => exact .refl _ _
    | some exit =>
      have mem : [exit] ⊆ (some exit).toList ++ b'.breaks := List.subset_append_left _ _
      -- the two kinds of skips that it waits for, one behind the other: its exit, and its breaks
      refine .bind (.modifyBlock _ rfl id nofun (List.Subset.refl _)) fun _ _ _ => ?_
      refine .bind (.resolveAllHere mem _) fun _ _ _ => ?_
      refine .bind (.modifyList (fun l => .extend l _ tail) _) fun _ _ _ => ?_
      refine .bind (.modifyBlock _ rfl id (fun _ => id) (List.nil_subset _)) fun _ _ _ => ?_
      refine .bind (.resolveAllHere (List.subset_append_right _ _) _) fun _ _ _ => ?_
      exact .modifyBlock _ rfl (fun _ => nofun) (fun _ => id) (List.Subset.refl _)
  · rw [run_unexpected _ _ ended]
    exact .refl _ _

/-- The end of a loop whose body is still open is given up where the body cannot be closed. -/
theorem run_finish_refused {b' : LoopBlock} {flow flow' : Flow} {e : LowerError}
    (tail : List Action) (entered : b.stage = .guarded)
    (refused : Attempt.run epilogue (b, flow) = (.error e, b', flow')) :
    Attempt.run (finish tail) (b, flow) = (.error e, b', flow') := by
  unfold finish
  rw [Attempt.run_bind, Attempt.run_get]
  dsimp only
  rw [if_pos entered, Attempt.run_bind, refused]

/-- A loop is not finished before its end was reached. -/
theorem run_finish_unready (tail : List Action) (flow : Flow) (open_ : b.stage ≠ .guarded)
    (closed : b.stage ≠ .epilogue) : Attempt.run (finish tail) (b, flow) =
      (.error (.defect (.wrongStage "loop finish" b.stage .epilogue)), b, flow) := by
  unfold finish
  rw [Attempt.run_bind, Attempt.run_get]
  dsimp only
  rw [if_neg open_, Attempt.run_bind, run_unexpected _ _ closed]

/-- Once a loop is set up it keeps its start. -/
def Stands (b b' : LoopBlock) : Prop :=
  b.stage ≠ .unset → b'.stage ≠ .unset ∧ b'.start = b.start

/-- A block stands as it is. -/
theorem Stands.refl (b : LoopBlock) : b.Stands b := fun h => ⟨h, rfl⟩

/-- It stands through another. -/
theorem Stands.trans {b c d : LoopBlock} (h₁ : b.Stands c) (h₂ : c.Stands d) :
    b.Stands d := fun h =>
  ⟨(h₂ (h₁ h).1).1, (h₂ (h₁ h).1).2.trans (h₁ h).2⟩

/-- It stands through tidy changes. -/
theorem Tidies.stands {s t : LoopBlock × Flow} (h : Tidies patched s t) : s.1.Stands t.1 :=
  fun ready => ⟨h.stage ready, h.start⟩

/-- It stands through setting up. -/
theorem stands_setup (b : LoopBlock) (flow : Flow) (depth : Nat) :
    b.Stands (Attempt.run (setup depth) (b, flow)).2.1 := by
  obtain ⟨e, ran⟩ | ⟨unset, start, list, -, ran⟩ := setup_cases depth b flow <;> rw [ran]
  · exact .refl b
  · exact fun ready => absurd unset ready

/-- It stands through its guard. -/
theorem stands_guard (b : LoopBlock) (flow : Flow) (condition : Option Element) :
    b.Stands (Attempt.run (guard condition) (b, flow)).2.1 := by
  obtain ⟨e, ran⟩ | ⟨-, list, -, -, ran⟩ := guard_cases condition b flow <;> rw [ran]
  · exact .refl b
  · exact fun _ => ⟨nofun, rfl⟩

/-- It stands through the end of its body. -/
theorem stands_epilogue (b : LoopBlock) (flow : Flow) :
    b.Stands (Attempt.run epilogue (b, flow)).2.1 := by
  obtain ⟨d, ran⟩ | ⟨frame, rest, -, -, ⟨-, ran⟩ | ⟨-, r, b', list, -, ran, ⟨-, rfl⟩ | ⟨-, rfl⟩⟩⟩ :=
    epilogue_cases b flow <;> rw [ran]
  · exact .refl b
  · exact .refl b
  · exact fun _ => ⟨nofun, rfl⟩
  · exact .refl b'

/-- It stands through its finish. -/
theorem stands_finish (b : LoopBlock) (flow : Flow) (tail : List Action) :
    b.Stands (Attempt.run (finish tail) (b, flow)).2.1 := by
  by_cases entered : b.stage = .guarded
  · have first := stands_epilogue b flow
    rcases ran : Attempt.run epilogue (b, flow) with ⟨e | _, b₁, flow₁⟩
    · rw [ran] at first
      rw [run_finish_refused tail entered ran]
      exact first
    · obtain ⟨-, frame, rest, list, -, -, -, rfl, -⟩ := run_epilogue_ok ran
      rw [run_finish_eq entered ran rfl]
      rw [ran] at first
      exact first.trans (finish_tidies tail flow₁ (by simp)).stands
  · exact (finish_tidies tail flow entered).stands

end LoopBlock

/-! ## Who owns what -/

/-- An exit that is accepted waits in the frame that it names, and nothing else waits anywhere. -/
theorem Lower.LoopExit.of_wait_ok {kind : LoopExit} {depth : UInt32} {loops loops' : LoopStack}
    {floor skip : Nat} (h : kind.wait depth loops floor skip = .ok loops') :
    ∃ frame frame', loops.frames[depth.toNat]? = some frame ∧
      loops' = ⟨loops.frames.set depth.toNat frame'⟩ ∧ frame'.start = frame.start ∧
      ∀ p, p ∈ frame'.continues ∨ p ∈ frame'.breaks → p = skip ∨ p ∈ frame.continues ∨
        p ∈ frame.breaks := by
  cases kind <;>
    · obtain ⟨frame, reached, added⟩ := except_bind_ok.1 h
      cases added
      refine ⟨frame, _, (LoopStack.frame_ok reached).2, rfl, rfl, fun p waits => ?_⟩
      simp only [List.mem_append, List.mem_singleton] at waits
      tauto

section

variable {α β : Type} {R : α → β → Prop} {l : List α} {m : List β} {n : Nat} {a : α} {b : β}

/-- Of two related lists the items at a place are related. -/
theorem forall₂_at (h : List.Forall₂ R l m) (found : l[n]? = some a) :
    ∃ b, m[n]? = some b ∧ R a b := by
  induction h generalizing n with
  | nil => cases found
  | cons first _ ih =>
    cases n with
    | zero =>
      cases found
      exact ⟨_, rfl, first⟩
    | succ n => exact ih found

/-- Replacing an item by a related one keeps them related. -/
theorem forall₂_set (h : List.Forall₂ R l m) (found : m[n]? = some b) (new : R a b) :
    List.Forall₂ R (l.set n a) m := by
  induction h generalizing n with
  | nil => cases found
  | cons first rest ih =>
    cases n with
    | zero =>
      cases found
      exact .cons new rest
    | succ n => exact .cons first (ih found)

end

namespace LoopSite

variable {site next : LoopSite} {i owner : Nat} {call : LoopCall}

section

variable {m : LoopBlock.Step Unit} {r : Except LowerError Unit} {b : LoopBlock} {flow : Flow}
  {frame : LoopFrame} {rest : List LoopFrame}

/-- A step that keeps the frames is one of the loop alone. -/
theorem onLoop_level (ran : Attempt.run m (site.loops i, site.flow) = (r, b, flow))
    (level : flow.loops = site.flow.loops) :
    site.onLoop i m = (r, { site with loops := Function.update site.loops i b, flow }) := by
  unfold onLoop
  rw [ran]
  simp [level]

/-- Setting up opens the loop's frame. -/
theorem onLoop_push (ran : Attempt.run m (site.loops i, site.flow) = (r, b, flow))
    (pushed : flow.loops = site.flow.loops.push frame) :
    site.onLoop i m = (r, { site with
      loops := Function.update site.loops i b, flow, owners := i :: site.owners }) := by
  unfold onLoop
  rw [ran]
  simp [pushed, LoopStack.depth, LoopStack.push]

/-- Finishing closes the innermost frame. -/
theorem onLoop_pop (ran : Attempt.run m (site.loops i, site.flow) = (r, b, flow))
    (found : site.flow.loops.frames = frame :: rest) (popped : flow.loops.frames = rest) :
    site.onLoop i m = (r, { site with
      loops := Function.update site.loops i b, flow, owners := site.owners.tail }) := by
  unfold onLoop
  rw [ran]
  simp [found, popped, LoopStack.depth]

end

/-- The end of a loop whose body is open closes the body first. -/
theorem onLoop_finish (tail : List Action) (entered : (site.loops i).stage = .guarded) :
    site.onLoop i (LoopBlock.finish tail) =
      match site.onLoop i LoopBlock.epilogue with
      | (.error e, s) => (.error e, s)
      | (.ok _, s) => s.onLoop i (LoopBlock.finish tail) := by
  rcases ran : Attempt.run LoopBlock.epilogue (site.loops i, site.flow) with ⟨e | _, b₁, flow₁⟩
  · unfold onLoop
    rw [LoopBlock.run_finish_refused tail entered ran, ran]
  · obtain ⟨-, frame, rest, list, found, -, -, rfl, rfl⟩ := LoopBlock.run_epilogue_ok ran
    -- both sides write the same loop and take the same frame, the left one in one step
    have closed : Attempt.run (LoopBlock.finish tail) (site.loops i, site.flow) = _ :=
      LoopBlock.run_finish_eq entered ran rfl
    let closing : LoopBlock := { site.loops i with breaks := frame.breaks, stage := .epilogue }
    have level := (LoopBlock.finish_tidies (b := closing) tail ⟨list, ⟨rest⟩⟩ nofun).loops
    rcases ended : Attempt.run (LoopBlock.finish tail) (_, ⟨list, ⟨rest⟩⟩) with ⟨r, b₂, flow₂⟩
    rw [ended] at level closed
    rw [onLoop_pop ran found rfl, onLoop_pop closed found (congrArg LoopStack.frames level)]
    dsimp only
    rw [onLoop_level (by dsimp only; rw [Function.update_self]; exact ended) level]
    dsimp only
    rw [Function.update_idem]

/-- The end of a loop whose body is closed, or that cannot be closed. -/
theorem onLoop_finish_closed (tail : List Action) (closed : (site.loops i).stage ≠ .guarded) :
    ∃ r b flow, site.onLoop i (LoopBlock.finish tail) =
        (r, { site with loops := Function.update site.loops i b, flow }) ∧
      LoopBlock.Tidies ((site.loops i).exit.toList ++ (site.loops i).breaks) (site.loops i,
        site.flow)
        (b, flow) := by
  have tidies := LoopBlock.finish_tidies tail site.flow closed
  rcases ran : Attempt.run (LoopBlock.finish tail) (site.loops i, site.flow) with ⟨r, b, flow⟩
  rw [ran] at tidies
  exact ⟨r, b, flow, onLoop_level ran tidies.loops, tidies⟩

/-- After the end of its body a loop is in that stage. -/
theorem stage_of_epilogue {u : Unit} (ran : site.onLoop i LoopBlock.epilogue = (.ok u, next)) :
    (next.loops i).stage = .epilogue := by
  unfold onLoop at ran
  rcases done : Attempt.run LoopBlock.epilogue (site.loops i, site.flow) with ⟨_ | _, b, flow⟩ <;>
    rw [done] at ran <;> cases ran
  obtain ⟨-, frame, rest, list, -, -, -, rfl, -⟩ := LoopBlock.run_epilogue_ok done
  dsimp only
  rw [Function.update_self]

/-- Whose frame it is: a loop that is set up, starts where the frame does, and the exits that wait
in the frame were registered there. -/
structure Owns (loops : Nat → LoopBlock) (exits : List (Nat × Nat)) (frame : LoopFrame)
    (owner : Nat) : Prop where
  ready : (loops owner).stage ≠ .unset
  start : frame.start = (loops owner).start
  waiting : ∀ p, p ∈ frame.continues ∨ p ∈ frame.breaks → (p, owner) ∈ exits

/-- What holds while no two loops start at the same position. -/
structure Sound (site : LoopSite) : Prop where
  frames : List.Forall₂ (Owns site.loops site.exits) site.flow.loops.frames site.owners
  breaks : ∀ i, ∀ p ∈ (site.loops i).breaks, (p, i) ∈ site.exits
  guards : ∀ i p, (site.loops i).exit = some p →
    p < site.flow.list.length ∧ ∀ j, (p, j) ∉ site.exits
  written : ∀ p j, (p, j) ∈ site.exits → p < site.flow.list.length
  /-- An exit is registered in one place. -/
  once : ∀ p j k, (p, j) ∈ site.exits → (p, k) ∈ site.exits → j = k

namespace Sound

/-- At the beginning no frame has an owner. -/
theorem new (kinds : Nat → LoopKind) : (new kinds).Sound :=
  ⟨.nil, nofun, nofun, nofun, nofun⟩

/-- A step on one loop that keeps what is known of its frames, of what it waits for and of its
guard. -/
theorem update (h : site.Sound) {b : LoopBlock} {flow : Flow} {owners : List Nat}
    (frames : List.Forall₂ (Owns (Function.update site.loops i b) site.exits)
      flow.loops.frames owners)
    (breaks : ∀ p ∈ b.breaks, (p, i) ∈ site.exits)
    (guard : ∀ p, b.exit = some p → p < flow.list.length ∧ ∀ j, (p, j) ∉ site.exits)
    (length : site.flow.list.length ≤ flow.list.length) :
    { site with loops := Function.update site.loops i b, flow, owners }.Sound := by
  refine ⟨frames, fun j p mem => ?_, fun j p exit => ?_, fun p j mem => ?_, h.once⟩
    <;> dsimp only at *
  · by_cases same : j = i
    · subst same
      rw [Function.update_self] at mem
      exact breaks p mem
    · rw [Function.update_of_ne same] at mem
      exact h.breaks j p mem
  · by_cases same : j = i
    · subst same
      rw [Function.update_self] at exit
      exact guard p exit
    · rw [Function.update_of_ne same] at exit
      exact ⟨Nat.lt_of_lt_of_le (h.guards j p exit).1 length, (h.guards j p exit).2⟩
  · exact Nat.lt_of_lt_of_le (h.written p j mem) length

end Sound

/-- A frame keeps its owner when a block changes that stands. -/
theorem Owns.update {loops : Nat → LoopBlock} {exits : List (Nat × Nat)} {frame : LoopFrame}
    {b : LoopBlock} (h : Owns loops exits frame owner) (stands : (loops i).Stands b) :
    Owns (Function.update loops i b) exits frame owner := by
  by_cases same : owner = i
  · subst same
    refine ⟨?_, ?_, h.waiting⟩ <;> rw [Function.update_self]
    · exact (stands h.ready).1
    · exact h.start.trans (stands h.ready).2.symm
  · refine ⟨?_, ?_, h.waiting⟩ <;> rw [Function.update_of_ne same]
    · exact h.ready
    · exact h.start

/-- A frame keeps its owner when exits are noted. -/
theorem Owns.more {loops : Nat → LoopBlock} {exits : List (Nat × Nat)} {frame : LoopFrame}
    (h : Owns loops exits frame owner) (exit : Nat × Nat) :
    Owns loops (exit :: exits) frame owner :=
  ⟨h.ready, h.start, fun p waits => List.mem_cons_of_mem _ (h.waiting p waits)⟩

namespace Sound

/-- A step that leaves the frames alone. -/
theorem tidied (h : site.Sound) {b : LoopBlock} {flow : Flow} {patched : List Nat}
    (tidies : LoopBlock.Tidies patched (site.loops i, site.flow) (b, flow)) :
    { site with loops := Function.update site.loops i b, flow }.Sound := by
  have frames : flow.loops.frames = site.flow.loops.frames := congrArg LoopStack.frames tidies.loops
  refine h.update (frames ▸ h.frames.imp fun _ _ owns => owns.update tidies.stands)
    (fun p mem => h.breaks i p (tidies.breaks mem)) (fun p exit => ?_) tidies.list.length
  -- what it waits for it waited for before
  obtain ⟨inside, free⟩ := h.guards i p (tidies.exit p exit)
  exact ⟨Nat.lt_of_lt_of_le inside tidies.list.length, free⟩

/-- What a loop does at its end gives a count to no exit of another loop. -/
theorem keeps (h : site.Sound) {s : LoopBlock × Flow}
    (tidies : LoopBlock.Tidies ((site.loops i).exit.toList ++ (site.loops i).breaks) (site.loops i,
      site.flow) s)
    {p : Nat} (waits : (p, owner) ∈ site.exits) (other : owner ≠ i) :
    s.2.list.get? p = site.flow.list.get? p := by
  refine tidies.list.keeps p (h.written p owner waits) fun mem => ?_
  obtain mem | mem := List.mem_append.1 mem
  · exact (h.guards i p (Option.mem_toList.1 mem)).2 owner waits
  · exact other (h.once p owner i waits (h.breaks i p mem))

/-- Setting up keeps the owners sound. -/
theorem setup (h : site.Sound) (depth : Nat) : (site.perform (.setup i depth)).2.Sound := by
  obtain ⟨e, ran⟩ | ⟨unset, start, list, goes, ran⟩ :=
    LoopBlock.setup_cases depth (site.loops i) site.flow
  · rw [perform, onLoop_level ran rfl, Function.update_eq_self]
    exact h
  · rw [perform, onLoop_push ran rfl]
    have stands : (site.loops i).Stands { site.loops i with start, stage := .setup } :=
      fun ready => absurd unset ready
    refine h.update (.cons ⟨?_, ?_, nofun⟩ (h.frames.imp fun _ _ owns => owns.update stands))
      (h.breaks i)
      (fun p exit => ?_) goes.length
    · rw [Function.update_self]
      nofun
    · rw [Function.update_self]
      rfl
    · exact ⟨Nat.lt_of_lt_of_le (h.guards i p exit).1 goes.length, (h.guards i p exit).2⟩

/-- So does a guard. -/
theorem guard (h : site.Sound) (condition : Option Element) :
    (site.perform (.guard i condition)).2.Sound := by
  obtain ⟨e, ran⟩ | ⟨ready, list, goes, more, ran⟩ :=
    LoopBlock.guard_cases condition (site.loops i) site.flow
  · rw [perform, onLoop_level ran rfl, Function.update_eq_self]
    exact h
  · rw [perform, onLoop_level ran rfl]
    refine h.update (h.frames.imp fun _ _ owns => owns.update fun _ => ⟨nofun, rfl⟩) (h.breaks i)
      (fun p exit => ?_) goes.length
    -- the skip of the guard is new in the list, so no exit is at its position
    cases exit
    exact ⟨more, fun j mem => Nat.lt_irrefl _ (h.written _ j mem)⟩

/-- The innermost frame starts where its owner does, so it is the owner's alone. -/
theorem owner_eq (h : site.Sound) (apart : site.Apart) {frame : LoopFrame} {rest : List LoopFrame}
    (found : site.flow.loops.frames = frame :: rest) (ready : (site.loops i).stage ≠ .unset)
    (start : frame.start = (site.loops i).start) : ∃ others, site.owners = i :: others ∧
      Owns site.loops site.exits frame i ∧ List.Forall₂
        (Owns site.loops site.exits) rest others := by
  have frames := h.frames
  rw [found] at frames
  generalize whose : site.owners = owners at frames
  cases frames with
  | @cons _ owner _ others owns outer =>
    -- two loops with one start are one
    obtain rfl := apart owner i owns.ready ready (owns.start.symm.trans start)
    exact ⟨others, rfl, owns, outer⟩

/-- The frames that are left when the innermost one is taken. -/
theorem outer (h : site.Sound) {frame : LoopFrame} {rest : List LoopFrame}
    (found : site.flow.loops.frames = frame :: rest) :
    List.Forall₂ (Owns site.loops site.exits) rest site.owners.tail := by
  have frames := h.frames
  rw [found] at frames
  obtain ⟨owner, others, -, outer, whose⟩ := List.forall₂_cons_left_iff.1 frames
  rw [whose]
  exact outer

/-- So does the end of a body, where beginnings are apart. -/
theorem epilogue (h : site.Sound) (apart : site.Apart) : (site.perform (.epilogue i)).2.Sound := by
  obtain ⟨d, ran⟩ | ⟨frame, rest, found, entered,
    ⟨-, ran⟩ | ⟨start, r, b, list, goes, ran, done⟩⟩ :=
    LoopBlock.epilogue_cases (site.loops i) site.flow
  · rw [perform, onLoop_level ran rfl, Function.update_eq_self]
    exact h
  · rw [perform, onLoop_pop ran found rfl, Function.update_eq_self]
    exact ⟨h.outer found, h.breaks, h.guards, h.written, h.once⟩
  · rw [perform, onLoop_pop ran found rfl]
    have guard (p : Nat) (exit : (site.loops i).exit = some p) : p < list.length ∧ ∀ j,
      (p, j) ∉ site.exits :=
      ⟨Nat.lt_of_lt_of_le (h.guards i p exit).1 goes.length, (h.guards i p exit).2⟩
    obtain ⟨-, rfl⟩ | ⟨-, rfl⟩ := done
    · -- what the frame waited for the loop waits for now, and the frame was its own
      obtain ⟨-, -, owns, -⟩ := h.owner_eq apart found (by rw [entered]; nofun) start
      exact h.update ((h.outer found).imp fun _ _ owns => owns.update fun _ => ⟨nofun, rfl⟩)
        (fun p mem => owns.waiting p (Or.inr mem)) guard goes.length
    · exact h.update ((h.outer found).imp fun _ _ owns => owns.update (.refl _))
        (h.breaks i) guard goes.length

/-- So does a finish, where they are. -/
theorem finish (h : site.Sound) (apart : site.Apart) (tail : List Action) :
    (site.perform (.finish i tail)).2.Sound := by
  have closes {site : LoopSite} (h : site.Sound) (closed : (site.loops i).stage ≠ .guarded) :
      (site.onLoop i (LoopBlock.finish tail)).2.Sound := by
    obtain ⟨r, b, flow, ran, tidies⟩ := onLoop_finish_closed tail closed
    rw [ran]
    exact h.tidied tidies
  by_cases entered : (site.loops i).stage = .guarded
  · have first := h.epilogue (i := i) apart
    unfold LoopSite.perform at first ⊢
    dsimp only at first ⊢
    rw [onLoop_finish tail entered]
    rcases ran : site.onLoop i LoopBlock.epilogue with ⟨e | _, s⟩ <;> rw [ran] at first
    · exact first
    · exact closes first (by rw [stage_of_epilogue ran]; nofun)
  · exact closes h entered

/-- An exit that is registered is a new skip. -/
theorem leave (h : site.Sound) (kind : LoopExit) (depth : UInt32) (floor : Nat) :
    (site.perform (.exit kind depth floor)).2.Sound := by
  have more : site.flow.list.length < (site.flow.list.pushSkip none).length :=
    Nat.lt_of_lt_of_eq (Nat.lt_succ_self _) (ActionList.length_pushSkip ..).symm
  have inside {p : Nat} (lt : p < site.flow.list.length) :
    p < (site.flow.list.pushSkip none).length :=
    Nat.lt_trans lt more
  rw [LoopSite.perform, LoopSite.leave]
  dsimp only
  split
  · exact ⟨h.frames, h.breaks, fun i p exit =>
      ⟨inside (h.guards i p exit).1, (h.guards i p exit).2⟩,
      fun p j mem => inside (h.written p j mem), h.once⟩
  · next loops added =>
    obtain ⟨frame, frame', found, rfl, start, waits⟩ := kind.of_wait_ok added
    obtain ⟨owner, whose, owns⟩ := forall₂_at h.frames found
    rw [whose]
    -- the position of the new skip is the end of the list, behind all that is known
    have new (p j : Nat) (mem : (p, j) ∈ (site.flow.list.length, owner) :: site.exits) :
        p = site.flow.list.length ∧ j = owner ∨ (p, j) ∈ site.exits := by
      simpa using mem
    have old := h.frames.imp fun _ _ owns => owns.more (site.flow.list.length, owner)
    refine ⟨forall₂_set old whose ⟨owns.ready, start.trans owns.start, fun p waits' => ?_⟩,
      fun i p mem => List.mem_cons_of_mem _ (h.breaks i p mem), fun i p exit => ?_,
        fun p j mem => ?_,
      fun p j k mem mem' => ?_⟩
    · obtain rfl | waiting := waits p waits'
      · exact List.mem_cons_self
      · exact List.mem_cons_of_mem _ (owns.waiting p waiting)
    · obtain ⟨before, free⟩ := h.guards i p exit
      refine ⟨inside before, fun j mem => ?_⟩
      obtain ⟨rfl, -⟩ | mem := new p j mem
      · exact Nat.lt_irrefl _ before
      · exact free j mem
    · obtain ⟨rfl, -⟩ | mem := new p j mem
      · exact more
      · exact inside (h.written p j mem)
    · -- nothing was registered at the end of the list
      have fresh (j : Nat) : (site.flow.list.length, j) ∉ site.exits := fun mem =>
        Nat.lt_irrefl _ (h.written _ j mem)
      obtain ⟨rfl, rfl⟩ | mem := new p j mem
      · obtain ⟨-, rfl⟩ | mem' := new _ k mem'
        · rfl
        · exact absurd mem' (fresh k)
      · obtain ⟨rfl, -⟩ | mem' := new p k mem'
        · exact absurd mem (fresh j)
        · exact h.once p j k mem mem'

/-- So every call does. -/
theorem perform (h : site.Sound) (apart : site.Apart) (call : LoopCall) :
    (site.perform call).2.Sound := by
  cases call with
  | setup i depth => exact h.setup depth
  | guard i condition => exact h.guard condition
  | epilogue i => exact h.epilogue apart
  | finish i tail => exact h.finish apart tail
  | exit kind depth floor => exact h.leave kind depth floor
  | push actions =>
    have grows : site.flow.list.length ≤ (site.flow.list.extend actions).length :=
      (ActionList.GoesOn.extend site.flow.list [] actions).length
    exact ⟨h.frames, h.breaks,
      fun i p exit => ⟨Nat.lt_of_lt_of_le (h.guards i p exit).1 grows, (h.guards i p exit).2⟩,
      fun p j mem => Nat.lt_of_lt_of_le (h.written p j mem) grows, h.once⟩

end Sound

/-! ## Sequences of calls -/

/-- A call of one loop leaves the others as they stand. -/
theorem stands_onLoop {m : LoopBlock.Step Unit}
    (stands : (site.loops i).Stands (Attempt.run m (site.loops i, site.flow)).2.1) (j : Nat) :
    (site.loops j).Stands ((site.onLoop i m).2.loops j) := by
  have loops : (site.onLoop i m).2.loops = Function.update site.loops i _ := rfl
  rw [loops]
  by_cases same : j = i
  · subst same
    rw [Function.update_self]
    exact stands
  · rw [Function.update_of_ne same]
    exact .refl _

/-- So every call leaves them. -/
theorem stands_perform (site : LoopSite) (call : LoopCall) (j : Nat) :
    (site.loops j).Stands ((site.perform call).2.loops j) := by
  cases call with
  | setup i depth => exact stands_onLoop (LoopBlock.stands_setup _ _ depth) j
  | guard i condition => exact stands_onLoop (LoopBlock.stands_guard _ _ condition) j
  | epilogue i => exact stands_onLoop (LoopBlock.stands_epilogue _ _) j
  | finish i tail => exact stands_onLoop (LoopBlock.stands_finish _ _ tail) j
  | exit kind depth floor =>
    unfold perform leave
    dsimp only
    split <;> exact .refl _
  | push actions => exact .refl _

/-- Loops that are apart after some calls were apart before them. -/
theorem Apart.before {calls : List LoopCall} (apart : (site.after calls).Apart) : site.Apart := by
  induction calls generalizing site with
  | nil => exact apart
  | cons call rest ih =>
    intro i j hi hj same
    have standsI := site.stands_perform call i hi
    have standsJ := site.stands_perform call j hj
    exact ih apart i j standsI.1 standsJ.1 (standsI.2.trans (same.trans standsJ.2.symm))

/-- After any calls the owners are sound, where beginnings stay apart. -/
theorem Sound.after {calls : List LoopCall} (h : site.Sound) (apart : (site.after calls).Apart) :
    (site.after calls).Sound := by
  induction calls generalizing site with
  | nil => exact h
  | cons call rest ih =>
    have all : (site.after (call :: rest)).Apart := apart
    exact ih (h.perform all.before call) apart

/-- Closing a body takes no frame or the innermost one. -/
theorem frames_epilogue (site : LoopSite) (i : Nat) :
    (site.onLoop i LoopBlock.epilogue).2.flow.loops = site.flow.loops ∨
      (site.onLoop i LoopBlock.epilogue).2.flow.loops.frames = site.flow.loops.frames.tail := by
  have flow : (site.onLoop i LoopBlock.epilogue).2.flow =
    (Attempt.run LoopBlock.epilogue (site.loops i, site.flow)).2.2 := rfl
  rw [flow]
  obtain ⟨d, ran⟩ | ⟨frame, rest, found, -, ⟨-, ran⟩ | ⟨-, r, b, list, -, ran, -⟩⟩ :=
    LoopBlock.epilogue_cases (site.loops i) site.flow <;> rw [ran]
  · exact Or.inl rfl
  · exact Or.inr (by rw [found, List.tail_cons])
  · exact Or.inr (by rw [found, List.tail_cons])

/-- A call makes the stack lower only by taking the innermost frame, to close the body of a loop. -/
theorem closes_of_lower (h : (site.perform call).2.flow.loops.depth < site.flow.loops.depth) :
    ∃ i, call.Closes i ∧ (site.perform call).2.flow.loops.frames = site.flow.loops.frames.tail := by
  -- a step that leaves the frames alone is none that makes the stack lower
  have level {loops : LoopStack} (h : loops.depth < site.flow.loops.depth) :
    loops ≠ site.flow.loops :=
    fun same => Nat.lt_irrefl _ (same ▸ h)
  cases call with
  | setup i depth =>
    obtain ⟨e, ran⟩ | ⟨-, start, list, -, ran⟩ :=
      LoopBlock.setup_cases depth (site.loops i) site.flow
    · rw [perform, onLoop_level ran rfl] at h
      exact absurd h (Nat.lt_irrefl _)
    · rw [perform, onLoop_push ran rfl] at h
      exact absurd h (Nat.not_lt.2 (Nat.le_succ _))
  | guard i condition =>
    obtain ⟨e, ran⟩ | ⟨-, list, -, -, ran⟩ :=
      LoopBlock.guard_cases condition (site.loops i) site.flow <;>
      rw [perform, onLoop_level ran rfl] at h
    · exact absurd h (Nat.lt_irrefl _)
    · exact absurd h (Nat.lt_irrefl _)
  | epilogue i => exact ⟨i, .epilogue, (frames_epilogue site i).resolve_left (level h)⟩
  | finish i tail =>
    refine ⟨i, .finish, ?_⟩
    unfold perform at h ⊢
    dsimp only at h ⊢
    by_cases entered : (site.loops i).stage = .guarded
    · have first := frames_epilogue site i
      rw [onLoop_finish tail entered] at h ⊢
      rcases ran : site.onLoop i LoopBlock.epilogue with ⟨e | _, s⟩ <;> rw [ran] at first h
      · exact first.resolve_left (level h)
      · obtain ⟨r, b, flow, closed, tidies⟩ :=
          s.onLoop_finish_closed tail (by rw [stage_of_epilogue ran]; nofun)
        dsimp only at h ⊢
        rw [closed] at h ⊢
        have same : flow.loops = s.flow.loops := tidies.loops
        dsimp only at h first ⊢
        rw [same] at h ⊢
        exact first.resolve_left (level h)
    · obtain ⟨r, b, flow, closed, tidies⟩ := onLoop_finish_closed tail entered
      rw [closed] at h
      exact absurd tidies.loops (level h)
  | exit kind depth floor =>
    unfold perform leave at h
    dsimp only at h
    split at h
    · exact absurd h (Nat.lt_irrefl _)
    · next loops added =>
      obtain ⟨frame, frame', -, rfl, -⟩ := kind.of_wait_ok added
      exact absurd h (by simp [LoopStack.depth])
  | push actions => exact absurd h (Nat.lt_irrefl _)

/-- The body of a loop is not closed while the innermost frame is not its own. -/
theorem Sound.refused (h : site.Sound) (apart : site.Apart) (closes : call.Closes i)
    (body : call = .epilogue i ∨ (site.loops i).stage ≠ .epilogue)
    (other : site.owners.head? ≠ some i) :
    (∃ d, (site.perform call).1 = .error (.defect d)) ∧
      (site.perform call).2.flow.list = site.flow.list ∧
        (site.perform call).2.loops = site.loops := by
  have epilogue : (∃ d, (site.onLoop i LoopBlock.epilogue).1 = .error (.defect d)) ∧
      (site.onLoop i LoopBlock.epilogue).2.flow.list = site.flow.list ∧
      (site.onLoop i LoopBlock.epilogue).2.loops = site.loops := by
    obtain ⟨d, ran⟩ | ⟨frame, rest, found, entered, ⟨-, ran⟩ | ⟨start, -⟩⟩ :=
      LoopBlock.epilogue_cases (site.loops i) site.flow
    · rw [onLoop_level ran rfl]
      exact ⟨⟨d, rfl⟩, rfl, Function.update_eq_self _ _⟩
    · rw [onLoop_pop ran found rfl]
      exact ⟨⟨_, rfl⟩, rfl, Function.update_eq_self _ _⟩
    · -- a frame that starts where the loop does would be its own
      obtain ⟨others, whose, -⟩ := h.owner_eq apart found (by rw [entered]; nofun) start
      exact absurd (by rw [whose]; rfl) other
  cases closes with
  | epilogue => exact epilogue
  | @finish _ tail =>
    unfold LoopSite.perform
    dsimp only
    by_cases entered : (site.loops i).stage = .guarded
    · rw [onLoop_finish tail entered]
      rcases ran : site.onLoop i LoopBlock.epilogue with ⟨e | _, s⟩ <;> rw [ran] at epilogue
      · exact epilogue
      · exact absurd epilogue.1 (by simp)
    · have ran := LoopBlock.run_finish_unready tail site.flow entered (body.resolve_left nofun)
      rw [onLoop_level ran rfl]
      exact ⟨⟨_, rfl⟩, rfl, Function.update_eq_self _ _⟩

/-- The end of a body leaves the exits of other loops waiting. -/
theorem Sound.kept_epilogue (h : site.Sound) (apart : site.Apart) {p : Nat}
    (waits : (p, owner) ∈ site.exits) (other : owner ≠ i) :
    (site.onLoop i LoopBlock.epilogue).2.flow.list.get? p = site.flow.list.get? p := by
  obtain ⟨d, ran⟩ | ⟨frame, rest, found, entered, ⟨-, ran⟩ | ⟨start, r, b, list, goes, ran, -⟩⟩ :=
    LoopBlock.epilogue_cases (site.loops i) site.flow
  · rw [onLoop_level ran rfl]
  · rw [onLoop_pop ran found rfl]
  · rw [onLoop_pop ran found rfl]
    obtain ⟨-, -, owns, -⟩ := h.owner_eq apart found (by rw [entered]; nofun) start
    exact goes.keeps p (h.written p owner waits) fun mem =>
      other (h.once p owner i waits (owns.waiting p (Or.inl mem)))

/-- An exit is given its count only by the loop in whose frame it was registered. -/
theorem Sound.exit_kept (h : site.Sound) (apart : site.Apart) {p : Nat}
    (waits : (p, owner) ∈ site.exits) (other : ¬ call.Closes owner) :
    (site.perform call).2.flow.list.get? p = site.flow.list.get? p := by
  have inside := h.written p owner waits
  cases call with
  | setup i depth =>
    obtain ⟨e, ran⟩ | ⟨-, start, list, goes, ran⟩ :=
      LoopBlock.setup_cases depth (site.loops i) site.flow
    · rw [LoopSite.perform, onLoop_level ran rfl]
    · rw [LoopSite.perform, onLoop_push ran rfl]
      exact goes.keeps p inside nofun
  | guard i condition =>
    obtain ⟨e, ran⟩ | ⟨-, list, goes, -, ran⟩ :=
      LoopBlock.guard_cases condition (site.loops i) site.flow <;>
      rw [LoopSite.perform, onLoop_level ran rfl]
    exact goes.keeps p inside nofun
  | epilogue i => exact h.kept_epilogue apart waits fun same => other (same ▸ .epilogue)
  | finish i tail =>
    have other : owner ≠ i := fun same => other (same ▸ .finish)
    have first := h.kept_epilogue apart waits other
    unfold LoopSite.perform
    dsimp only
    by_cases entered : (site.loops i).stage = .guarded
    · have sound := h.epilogue (i := i) apart
      unfold LoopSite.perform at sound
      dsimp only at sound
      rw [onLoop_finish tail entered]
      rcases ran : site.onLoop i LoopBlock.epilogue with ⟨e | _, s⟩ <;> rw [ran] at first
      · exact first
      · rw [ran] at sound
        obtain ⟨r, b, flow, closed, tidies⟩ :=
          s.onLoop_finish_closed tail (by rw [stage_of_epilogue ran]; nofun)
        -- the body is closed, and what is left of the end finds the exit as it was
        have exits : (site.onLoop i LoopBlock.epilogue).2.exits = site.exits := rfl
        rw [ran] at exits
        dsimp only
        rw [closed]
        exact (sound.keeps tidies (exits ▸ waits) other).trans first
    · obtain ⟨r, b, flow, closed, tidies⟩ := onLoop_finish_closed tail entered
      rw [closed]
      exact h.keeps tidies waits other
  | exit kind depth floor =>
    have same :=
      (ActionList.GoesOn.push site.flow.list [] (ActionList.pendingSkip none)).keeps p inside nofun
    unfold LoopSite.perform LoopSite.leave
    dsimp only
    split <;> exact same
  | push actions => exact (ActionList.GoesOn.extend site.flow.list [] actions).keeps p inside nofun

/-- Different loops that have been set up so far start at different positions. Then the noted owners
are those of the open frames. Only a call that closes the body of a loop takes a frame, the
innermost one. It is refused where that frame is not the loop's own, and then the frame is dropped
at most: the list and the loops stay as they were. And only the calls that close a loop give counts
to the exits that were registered in its frames. -/
theorem closes_own_frame (kinds : Nat → LoopKind) (calls : List LoopCall) (call : LoopCall)
    (apart : ((new kinds).after calls).Apart) :
    let site := (new kinds).after calls
    let answer := (site.perform call).1
    let next := (site.perform call).2
    site.owners.length = site.flow.loops.depth ∧
    (next.flow.loops.depth < site.flow.loops.depth →
      ∃ i, call.Closes i ∧ next.flow.loops.frames = site.flow.loops.frames.tail) ∧
    (∀ i, call.Closes i → call = .epilogue i ∨ (site.loops i).stage ≠ .epilogue →
      site.owners.head? ≠ some i →
        (∃ d, answer = .error (.defect d)) ∧ next.flow.list = site.flow.list ∧
          next.loops = site.loops) ∧
    ∀ p owner, (p, owner) ∈ site.exits → next.flow.list.get? p ≠ site.flow.list.get? p →
      call.Closes owner := by
  have sound := (Sound.new kinds).after apart
  refine ⟨sound.frames.length_eq.symm, closes_of_lower, ?_, ?_⟩
  · exact fun i closes body other => sound.refused apart closes body other
  · exact fun p owner waits changed => by_contra fun other =>
      changed (sound.exit_kept apart waits other)

/-- A loop in the body of another, each left by a skip that always leaves, and the exit of the inner
to its next round. -/
def nested : List LoopCall :=
  [.setup 0 0, .guard 0 (some (.bool true)), .setup 1 0, .guard 1 (some (.bool true)),
    .exit .continue 0 0]

/-- The outer loop cannot be closed while the inner is open. The inner one can, and gives its exit a
count. -/
theorem closes_own_frame_nested :
    let site := (new fun _ => .while).after nested
    site.Apart ∧ (∃ d, (site.perform (.epilogue 0)).1 = .error (.defect d)) ∧
      (site.perform (.epilogue 1)).1 = .ok () ∧ (2, 1) ∈ site.exits ∧
      (site.perform (.epilogue 1)).2.flow.list.get? 2 = some (.skip (some 0)) := by
  have apart : ((new fun _ => .while).after nested).Apart := by
    rintro (_ | _ | i) (_ | _ | j) hi hj same
    · rfl
    · exact absurd same (by decide)
    · exact absurd rfl hj
    · exact absurd same (by decide)
    · rfl
    · exact absurd rfl hj
    · exact absurd rfl hi
    · exact absurd rfl hi
    · exact absurd rfl hi
  obtain ⟨-, -, refused, -⟩ := closes_own_frame (fun _ => .while) nested (.epilogue 0) apart
  exact ⟨apart, (refused 0 .epilogue (Or.inl rfl) (by decide)).1, rfl, by decide, rfl⟩

/-- Two loops that are set up one right after the other, and an exit of the inner to its next round.
-/
def sameStart : List LoopCall :=
  [.setup 0 0, .setup 1 0, .guard 0 (some (.bool true)), .guard 1 (some (.bool true)),
    .exit .continue 0 0]

/-- A loop closes its body with the frame of another, and gives a count to the exit that waits
there. -/
theorem closes_frame_of_other :
    ¬ ∀ (kinds : Nat → LoopKind) (calls : List LoopCall) (call : LoopCall),
      let site := (new kinds).after calls
      let next := (site.perform call).2
      (∀ i, call = .epilogue i → (site.perform call).1 = .ok () → site.owners.head? = some i) ∧
      ∀ p owner, (p, owner) ∈ site.exits → next.flow.list.get? p ≠ site.flow.list.get? p →
        call.Closes owner := by
  intro claim
  have own := (claim (fun _ => .while) sameStart (.epilogue 0)).1 0 rfl rfl
  exact absurd own (by decide)

end LoopSite

end SkipCode
