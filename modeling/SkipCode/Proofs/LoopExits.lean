import SkipCode.Proofs.Access
import SkipCode.Proofs.Accounts
import SkipCode.Proofs.Levels
import SkipCode.Proofs.LongLoops

/-!
# Exits of loops

A `break` or `continue` names its loop by how many loops lie between. While calls are expanded the
loops of the callers stay on the same stack, so this has to be seen against the source:

* `Lower.Within`: the way from the statements of a body to one of its statements, with the loops on
  it;
* `Lower.Starts`: the bodies that the lowering of a unit comes to;
* `Session.Runs.exits_reach_loops`: an exit is refused when there are too few loops on the way to
  it, and otherwise its skip leads where the loop that is meant goes on or ends, in a unit of fewer
  than `2 ^ 32` actions;
* `break_lands_inside`: beyond that the count of the skip is taken around.
-/

namespace SkipCode

open Lower
open Source (Branch Expr Loop Stmt StmtKind)

/-- A skip leads where it was led in every list that is checked and in which a count of 32 bits
tells targets apart. -/
theorem Led.skipAt_of_check {F : ActionList} {p target : Nat} (short : F.length < 2 ^ 32)
    (check : F.check = .ok ()) (led : Led F p target) {a : Action} (found : F.get? p = some a)
    (fills : (Action.skip none).Fills a) : SkipAt F p target := by
  have inside := lt_of_get? found
  have counted := led.skip found fills
  have sound := ActionList.flaw?_of_check check counted
  cases reached : Action.skipTarget? p (Action.skipDistance p target) F.length with
  | none =>
    rw [Action.flaw?] at sound
    simp [Action.skipCount?, reached] at sound
  | some q =>
    obtain ⟨e, le⟩ := (Action.skipTarget?_eq_some_iff (by omega) (by omega)).1 reached
    -- both targets are in the list, and the count fixes them up to a multiple of 2 ^ 32
    have bound := led.1
    rw [Action.skipDistance, Int32.toInt_ofInt, Int.bmod_def] at e
    have word : (Int32.size : Int) = 2 ^ 32 := rfl
    rw [word] at e
    obtain rfl : q = target := by
      split at e <;> omega
    exact ⟨_, counted, reached⟩

/-- A skip leads to one place. -/
theorem SkipAt.unique {F : ActionList} {p target target' : Nat} (h : SkipAt F p target)
    (h' : SkipAt F p target') : target = target' := by
  obtain ⟨count, found, lands⟩ := h
  obtain ⟨count', found', lands'⟩ := h'
  cases found.symm.trans found'
  exact Option.some.inj (lands.symm.trans lands')

/-! ## The way to a statement -/

/-- What is lowered in one piece on the way to a statement. -/
inductive Source.Fragment where
  | stmts (body : List Stmt)
  | stmt (first : Stmt)
  | kind (k : StmtKind)
  | arms (more : Bool) (chain : IfChain) (branches : List Branch)
  | loop (l : Loop)

namespace Source.Fragment

def Out : Fragment → Type
  | .arms _ _ _ => IfChain
  | _ => Unit

def lower (into : Expander) : (p : Fragment) → Lower p.Out
  | .stmts body => lowerStmts into body
  | .stmt first => lowerStmt into first
  | .kind k => lowerKind into k
  | .arms more chain branches => lowerBranches into more chain branches
  | .loop l => l.lower into

end Source.Fragment

open Source (Fragment)

namespace Lower

variable {α β : Type} {into : Expander}

/-- Lowering a fragment in the first state comes to one right inside it in the second state, without
entering the body of a loop. What comes before and after the rounds of a loop is outside of it. -/
inductive Inner (into : Expander) : Fragment → UnitState → Fragment → UnitState → Prop
  | head {first : Stmt} {rest : List Stmt} {s : UnitState} :
      Inner into (.stmts (first :: rest)) s (.stmt first) s
  | tail {first : Stmt} {rest : List Stmt} {s t : UnitState} :
      run (lowerStmt into first) s = some (.ok (), t) →
      Inner into (.stmts (first :: rest)) s (.stmts rest) t
  | located {k : StmtKind} {span : Source.Span} {s : UnitState} :
      Inner into (.stmt (.mk k span)) s (.kind k) { s with span := span }
  | block {body : List Stmt} {s : UnitState} :
      Inner into (.kind (.block body)) s (.stmts body) s.opened
  | arms {branches : List Branch} {otherwise : Option (List Stmt)} {s : UnitState} :
      Inner into (.kind (.cond branches otherwise)) s (.arms otherwise.isSome .new branches) s
  | otherwise {branches : List Branch} {body : List Stmt} {chain : IfChain} {s t : UnitState} :
      run (lowerBranches into true .new branches) s = some (.ok chain, t) →
      Inner into (.kind (.cond branches (some body))) s (.stmts body) t.opened
  | arm {more : Bool} {chain : IfChain} {condition : Expr} {body : List Stmt} {rest : List Branch}
      {x : IfBlock × List Action} {s t : UnitState} :
      run (openArm into condition) s = some (.ok x, t) →
      Inner into (.arms more chain (.mk condition body :: rest)) s (.stmts body) t.opened
  | nextArm {more : Bool} {chain chain' : IfChain} {condition : Expr} {body : List Stmt}
      {rest : List Branch} {x : IfBlock × List Action} {s t u v : UnitState} :
      run (openArm into condition) s = some (.ok x, t) →
      run (inScope (lowerStmts into body)) t = some (.ok (), u) →
      run (closeArm x.1 x.2 chain (!rest.isEmpty || more)) u = some (.ok chain', v) →
      Inner into (.arms more chain (.mk condition body :: rest)) s (.arms more chain' rest) v
  | while {condition : Expr} {body : List Stmt} {s : UnitState} :
      Inner into (.kind (.while condition body)) s (.loop (.while condition body)) s
  | start {first : Stmt} {condition : Expr} {step : Option Stmt} {body : List Stmt}
      {s : UnitState} :
      Inner into (.kind (.for (some first) condition step body)) s (.stmt first) s.opened
  | for {start : Option Stmt} {condition : Expr} {step : Option Stmt} {body : List Stmt}
      {s t : UnitState} : run (lowerStmts into start.toList) s.opened = some (.ok (), t) →
      Inner into (.kind (.for start condition step body)) s (.loop (.for condition step body)) t
  | forEach {element : String} {index : Option String} {array : Expr} {body : List Stmt}
      {x : Element} {s t : UnitState} : run (lowerExpr into array) s = some (.ok x, t) →
      Inner into (.kind (.forEach element index array body)) s
        (.loop (.forEach element index x body))
        t.opened
  | step {l : Loop} {step : Stmt} {x : LoopBlock × List Action} {block : LoopBlock}
      {s t u : UnitState} : l.step = some step → run (l.round into) s = some (.ok x, t) →
      run (onLoop x.1 LoopBlock.epilogue) t = some (.ok block, u) →
      Inner into (.loop l) s (.stmt step) u.opened

/-- Lowering a fragment in the first state comes to a statement in the second state. The list has
the loops on the way in whose bodies the statement lies, the innermost first, each with the state in
which its lowering starts. -/
inductive Within (into : Expander) :
    Fragment → UnitState → List (Loop × UnitState) → StmtKind → UnitState → Prop
  | here {k : StmtKind} {s : UnitState} : Within into (.kind k) s [] k s
  | inner {p q : Fragment} {s t u : UnitState} {loops : List (Loop × UnitState)} {k : StmtKind} :
      Inner into p s q t → Within into q t loops k u → Within into p s loops k u
  | body {l : Loop} {x : LoopBlock × List Action} {s t u : UnitState}
      {loops : List (Loop × UnitState)} {k : StmtKind} :
      run (l.enter into) s = some (.ok x, t) → Within into (.stmts l.body) t loops k u →
      Within into (.loop l) s (loops ++ [(l, s)]) k u

/-! ### Lowering comes there -/

theorem Composed.enter (bodies : into.Composed) (l : Loop) : Composed (l.enter into) := by
  cases l with
  | «while» condition body =>
    exact .bind (.openLoop bodies _ _) fun _ => .bind .openScope fun _ => .pure _
  | «for» condition step body =>
    exact .bind (.openLoop bodies _ _) fun _ => .bind .openScope fun _ => .pure _
  | forEach element index array body =>
    exact .bind (.openForEach _ _) fun _ => .bind .openScope fun _ =>
      .bind (.bindReference _ _) fun _ => .pure _

theorem Composed.round (bodies : into.Composed) (l : Loop) : Composed (l.round into) :=
  .bind (.enter bodies l) fun _ => .bind (.stmts bodies _) fun _ =>
    .bind .closeScope fun _ => .pure _

theorem Composed.between (bodies : into.Composed) (l : Loop) : Composed (l.between into) := by
  unfold Loop.between
  split
  · exact .inScope (.stmt bodies _)
  · exact .pure _

theorem Composed.leave (bodies : into.Composed) (x : LoopBlock × List Action) (l : Loop) :
    Composed (l.leave into x) := by
  cases l with
  | «while» condition body => exact .slotless (.closeLoop _ _)
  | «for» condition step body =>
    exact .bind (.slotless (.onLoop _ .epilogue)) fun _ => .bind (.between bodies _) fun _ =>
      .slotless (.closeLoop _ _)
  | forEach element index array body => exact .slotless (.closeLoop _ _)

theorem Composed.loop (bodies : into.Composed) (l : Loop) : Composed (l.lower into) :=
  .bind (.round bodies l) fun _ => .leave bodies _ l

/-- A loop behind the statement that starts it. -/
theorem Composed.started (bodies : into.Composed) (first : Stmt) (l : Loop) : Composed (do
    lowerStmt into first
    l.lower into) :=
  .bind (.stmt bodies _) fun _ => .loop bodies l

/-- What follows the body of an arm. -/
theorem Composed.behindArm (bodies : into.Composed) (chain : IfChain) (rest : List Branch)
    (more : Bool) (x : IfBlock × List Action) : Composed (do
      let chain ← closeArm x.1 x.2 chain (!rest.isEmpty || more)
      lowerBranches into more chain rest) :=
  .bind (.slotless (.closeArm _ _ _ _)) fun _ => .arms bodies _ _ _

/-- A scope is opened for a step. -/
theorem ComesTo.inScope {m : Lower α} {s : UnitState} (hm : Composed m) :
    ComesTo (Lower.inScope m) s m s.opened :=
  .later .openScope (fun _ => .bind hm fun _ => .bind .closeScope fun _ => .pure _) rfl
    (.first hm (fun _ => .bind .closeScope fun _ => .pure _) .here)

theorem Inner.comesTo (bodies : into.Composed) {p q : Fragment} {s t : UnitState}
    (h : Inner into p s q t) : ComesTo (p.lower into) s (q.lower into) t := by
  -- in each case lowering passes what is before the inner piece, as it ran, and comes to it in the
  -- scope
  -- that is opened for it; all that is lowered behind it is composed too
  cases h with
  | @head first rest =>
    show ComesTo (lowerStmts into (first :: rest)) s (lowerStmt into first) s
    rw [lowerStmts]
    exact .first (.stmt bodies _) (fun _ => .stmts bodies _) .here
  | @tail first rest _ _ ran =>
    show ComesTo (lowerStmts into (first :: rest)) s (lowerStmts into rest) t
    rw [lowerStmts]
    exact .later (.stmt bodies _) (fun _ => .stmts bodies _) ran .here
  | @located k span =>
    show ComesTo (lowerStmt into (.mk k span)) s (lowerKind into k) { s with span := span }
    rw [lowerStmt]
    exact .located (.kind bodies _) .here
  | @block body =>
    show ComesTo (lowerKind into (.block body)) s (lowerStmts into body) s.opened
    rw [lowerKind]
    exact .inScope (.stmts bodies _)
  | @arms branches otherwise =>
    show ComesTo (lowerKind into (.cond branches otherwise)) s
      (lowerBranches into otherwise.isSome .new branches) s
    rw [lowerKind]
    refine .first (.arms bodies _ _ _) (fun chain => ?_) .here
    cases otherwise with
    | none => exact .slotless (.closeChain _)
    | some body => exact .bind (.inScope (.stmts bodies _)) fun _ => .slotless (.closeChain _)
  | @otherwise branches body chain _ t ran =>
    show ComesTo (lowerKind into (.cond branches (some body))) s (lowerStmts into body) t.opened
    rw [lowerKind]
    have rest (chain : IfChain) : Composed (do
        inScope (lowerStmts into body)
        closeChain chain) :=
      .bind (.inScope (.stmts bodies _)) fun _ => .slotless (.closeChain _)
    exact .later (.arms bodies _ _ _) rest ran
      (.first (.inScope (.stmts bodies _)) (fun _ => .slotless (.closeChain _))
        (.inScope (.stmts bodies _)))
  | @arm more chain condition body rest x _ t opened =>
    show ComesTo (lowerBranches into more chain (.mk condition body :: rest)) s
      (lowerStmts into body) t.opened
    rw [lowerBranches]
    have behind (x : IfBlock × List Action) := Composed.behindArm bodies chain rest more x
    exact .later (.openArm bodies _) (fun x => .bind (.inScope (.stmts bodies _)) fun _ =>
      behind x) opened
      (.first (.inScope (.stmts bodies _)) (fun _ => behind x) (.inScope (.stmts bodies _)))
  | @nextArm more chain chain' condition body rest x _ _ u _ opened lowered closed =>
    show ComesTo (lowerBranches into more chain (.mk condition body :: rest)) s
      (lowerBranches into more chain' rest) t
    rw [lowerBranches]
    have behind (x : IfBlock × List Action) := Composed.behindArm bodies chain rest more x
    exact .later (.openArm bodies _) (fun x => .bind (.inScope (.stmts bodies _)) fun _ =>
      behind x) opened
      (.later (.inScope (.stmts bodies _)) (fun _ => behind x) lowered
        (.later (.slotless (.closeArm _ _ _ _)) (fun _ => .arms bodies _ _ _) closed .here))
  | @«while» condition body =>
    show ComesTo (lowerKind into (.while condition body)) s
      ((Loop.while condition body).lower into) s
    rw [lowerKind_while]
    exact .here
  | @start first condition step body =>
    show ComesTo (lowerKind into (.for (some first) condition step body)) s
      (lowerStmt into first) s.opened
    rw [lowerKind_for]
    exact (ComesTo.inScope (Composed.started bodies first _)).trans
      (.first (.stmt bodies _) (fun _ => .loop bodies _) .here)
  | @«for» start condition step body _ _ ran =>
    show ComesTo (lowerKind into (.for start condition step body)) s
      ((Loop.for condition step body).lower into) t
    rw [lowerKind_for]
    cases start with
    | none =>
      cases ran
      exact .inScope (.loop bodies _)
    | some first =>
      refine (ComesTo.inScope (Composed.started bodies first _)).trans
        (.later (a := ()) (.stmt bodies _) (fun _ => .loop bodies _) ?_ .here)
      rw [Option.toList, lowerStmts, run_bind_ok] at ran
      obtain ⟨_, u, ran, ended⟩ := ran
      rw [lowerStmts] at ended
      cases ended
      exact ran
  | @forEach element index array body x _ u ran =>
    show ComesTo (lowerKind into (.forEach element index array body)) s
      ((Loop.forEach element index x body).lower into) u.opened
    rw [lowerKind_forEach]
    exact .later (.expr bodies _) (fun _ => .inScope (.loop bodies _)) ran
      (.inScope (.loop bodies _))
  | @step l step x block _ r u known round closed =>
    show ComesTo (l.lower into) s (lowerStmt into step) u.opened
    cases l with
    | «while» condition body => cases known
    | forEach element index array body => cases known
    | «for» condition step' body =>
      cases known
      have between : Composed ((Loop.for condition (some step) body).between into) :=
        .between bodies _
      have ended (block : LoopBlock) : Composed (do
          (Loop.for condition (some step) body).between into
          closeLoop block x.2) :=
        .bind between fun _ => .slotless (.closeLoop _ _)
      exact .later (.round bodies _) (fun _ => .leave bodies _ _) round
        (.later (.slotless (.onLoop _ .epilogue)) ended closed
          (.first between (fun _ => .slotless (.closeLoop _ _)) (.inScope (.stmt bodies _))))

/-- A loop that is entered comes to its body. -/
theorem ComesTo.loopBody (bodies : into.Composed) {l : Loop} {x : LoopBlock × List Action}
    {s t : UnitState} (entered : run (l.enter into) s = some (.ok x, t)) :
    ComesTo (l.lower into) s (lowerStmts into l.body) t := by
  have rest (x : LoopBlock × List Action) : Composed (do
      lowerStmts into l.body
      closeScope
      return x) :=
    .bind (.stmts bodies _) fun _ => .bind .closeScope fun _ => .pure _
  have round : ComesTo (l.round into) s (lowerStmts into l.body) t :=
    .later (.enter bodies l) rest entered
      (.first (.stmts bodies _) (fun _ => .bind .closeScope fun _ => .pure _) .here)
  exact .first (.round bodies l) (fun _ => .leave bodies _ l) round

/-- The fragment that lies inside is in the same body and in as many loops. -/
theorem Inner.level (bodies : into.Level) {p q : Fragment} {s t : UnitState}
    (h : Inner into p s q t) : t.floors = s.floors ∧ t.loops.depth = s.loops.depth := by
  cases h with
  | head | located | block | arms | «while» | start => exact ⟨rfl, rfl⟩
  | tail ran => exact Level.stmt bodies _ _ _ _ ran
  | otherwise ran =>
    have kept := Level.arms bodies _ _ _ _ _ _ ran
    exact kept
  | arm opened =>
    have kept := Level.openArm bodies _ _ _ _ opened
    exact kept
  | nextArm opened lowered closed =>
    obtain ⟨floors₁, depth₁⟩ := Level.openArm bodies _ _ _ _ opened
    obtain ⟨floors₂, depth₂⟩ := Level.inScope (Level.stmts bodies _) _ _ _ lowered
    obtain ⟨floors₃, depth₃⟩ := Level.closeArm _ _ _ _ _ _ _ closed
    exact ⟨floors₃.trans (floors₂.trans floors₁), depth₃.trans (depth₂.trans depth₁)⟩
  | «for» ran =>
    have kept := Level.stmts bodies _ _ _ _ ran
    exact kept
  | forEach ran =>
    have kept := Level.expr bodies _ _ _ _ ran
    exact kept
  | step known round closed =>
    obtain ⟨floors₁, depth₁⟩ := Loop.levels_round bodies (Level.stmts bodies _) _ _ _ round
    obtain ⟨floors₂, depth₂⟩ := Levels.epilogue _ _ _ _ closed
    refine ⟨floors₂.trans floors₁, depth₂.trans ?_⟩
    rw [depth₁]
    rfl

namespace Within

variable {p : Fragment} {s u : UnitState} {loops : List (Loop × UnitState)} {k : StmtKind}

theorem comesTo (bodies : into.Composed) (h : Within into p s loops k u) :
    ComesTo (p.lower into) s (lowerKind into k) u := by
  induction h with
  | here => exact .here
  | inner step _ ih => exact (step.comesTo bodies).trans ih
  | body entered _ ih => exact (ComesTo.loopBody bodies entered).trans ih

/-- At a statement as many more loops are open as lie on the way to it. -/
theorem level (bodies : into.Level) (h : Within into p s loops k u) :
    u.floors = s.floors ∧ u.loops.depth = s.loops.depth + loops.length := by
  induction h with
  | here => exact ⟨rfl, rfl⟩
  | inner step _ ih =>
    obtain ⟨floors, depth⟩ := step.level bodies
    exact ⟨ih.1.trans floors, depth ▸ ih.2⟩
  | @body l _ _ _ _ _ _ entered _ ih =>
    obtain ⟨floors, depth⟩ := Loop.levels_enter bodies l _ _ _ entered
    refine ⟨ih.1.trans floors, ?_⟩
    have opened : _ = _ + 1 := depth
    rw [ih.2, opened, List.length_append, List.length_singleton]
    omega

end Within

/-- A loop that lies on the way to a statement, with so many others between. -/
structure Encloses (into : Expander) (p : Fragment) (s : UnitState) (l : Loop) (start : UnitState)
    (between : Nat) (k : StmtKind) (u : UnitState) : Prop where
  comes : ComesTo (p.lower into) s (l.lower into) start
  inside : ∃ x t, run (l.enter into) start = some (.ok x, t) ∧
    ComesTo (lowerStmts into l.body) t (lowerKind into k) u ∧
      u.loops.depth = t.loops.depth + between

theorem Within.encloses (composed : into.Composed) (bodies : into.Level) {p : Fragment}
    {s u start : UnitState} {loops : List (Loop × UnitState)} {k : StmtKind} {l : Loop} {i : Nat}
    (h : Within into p s loops k u) (found : loops[i]? = some (l, start)) :
    Encloses into p s l start i k u := by
  induction h with
  | here => cases found
  | inner step _ ih =>
    obtain ⟨comes, inside⟩ := ih found
    exact ⟨(step.comesTo composed).trans comes, inside⟩
  | @body l' x s' t u' loops' k' entered within ih =>
    rw [List.getElem?_append] at found
    split at found
    · obtain ⟨comes, inside⟩ := ih found
      exact ⟨(ComesTo.loopBody composed entered).trans comes, inside⟩
    · next beyond =>
      -- the loop itself, in which the others lie
      have last : i = loops'.length ∧ (l', s') = (l, start) := by
        cases here : i - loops'.length with
        | zero =>
          rw [here] at found
          exact ⟨by omega, Option.some.inj found⟩
        | succ n =>
          rw [here] at found
          cases found
      obtain ⟨rfl, e⟩ := last
      cases e
      exact ⟨.here, x, t, entered, within.comesTo composed, (within.level bodies).2⟩

/-! ## Exits -/

theorem run_frame {s : UnitState} {frame : Frame} {frames : List Frame}
    (found : s.frames = frame :: frames) : run Lower.frame s = some (.ok frame, s) := by
  rw [Lower.frame, run_bind, run_get]
  simp only [found]
  rfl

/-- The two ways to leave a loop or its round in the middle. -/
inductive LoopExit where
  | break
  | continue

namespace LoopExit

/-- The statement that names a loop by how many lie between. -/
def kind (depth : UInt32) : LoopExit → StmtKind
  | .break => .break depth
  | .continue => .continue depth

/-- How the exit is called when it is refused. -/
def name : LoopExit → String
  | .break => "break"
  | .continue => "continue"

def wait (depth : UInt32) : LoopExit → LoopStack → (floor skip : Nat) → Except LowerError LoopStack
  | .break => (·.addBreak depth)
  | .continue => (·.addContinue depth)

/-- The skips of a loop that wait as this exit does. -/
def waiting : LoopExit → LoopFrame → List Nat
  | .break => LoopFrame.breaks
  | .continue => LoopFrame.continues

/-- Where the exit leads in a loop whose epilogue and whose end are at these positions. -/
def target (epilogue last : Nat) : LoopExit → Nat
  | .break => last
  | .continue => epilogue

variable {exit : LoopExit} {depth : UInt32} {s t : UnitState}

theorem lowerKind_eq (exit : LoopExit) (depth : UInt32) :
    lowerKind into (exit.kind depth) = leaveLoop depth exit.name (exit.wait depth) := by
  cases exit <;> exact lowerKind.eq_def _ _

/-- A loop that is found lets one more skip wait. -/
theorem wait_eq {loops : LoopStack} {floor : Nat} {frame : LoopFrame} (skip : Nat)
    (found : loops.frame depth floor exit.name = .ok frame) :
    ∃ frame', exit.wait depth loops floor skip = .ok ⟨loops.frames.set depth.toNat frame'⟩ ∧
      skip ∈ exit.waiting frame' := by
  cases exit with
  | «break» =>
    exact ⟨_, except_bind_ok.2 ⟨frame, found, rfl⟩, List.mem_append_right _ List.mem_cons_self⟩
  | «continue» =>
    exact ⟨_, except_bind_ok.2 ⟨frame, found, rfl⟩, List.mem_append_right _ List.mem_cons_self⟩

/-- With too few loops above the floor of the body an exit is refused. -/
theorem run_refused {frame : Frame} {frames : List Frame} (found : s.frames = frame :: frames)
    (few : s.loops.depth ≤ frame.loopFloor + depth.toNat) :
    run (lowerKind into (exit.kind depth)) s =
      some (.error (.unsupported (.noSuchLoop exit.name depth)), s) := by
  have missing : s.loops.frame depth frame.loopFloor exit.name =
      .error (.unsupported (.noSuchLoop exit.name depth)) := if_neg (Nat.not_lt.2 few)
  rw [lowerKind_eq, leaveLoop, run_bind, run_frame found]
  dsimp only
  rw [run_bind, run_get]
  dsimp only
  rw [run_bind, run_lift, missing]

/-- With enough loops it is accepted. -/
theorem run_accepted {frame : Frame} {frames : List Frame} (found : s.frames = frame :: frames)
    (enough : frame.loopFloor + depth.toNat < s.loops.depth) :
    ∃ t, run (lowerKind into (exit.kind depth)) s = some (.ok (), t) := by
  have inside : depth.toNat < s.loops.frames.length :=
    Nat.lt_of_le_of_lt (Nat.le_add_left _ _) enough
  obtain ⟨target, reached⟩ : ∃ target, s.loops.frame depth frame.loopFloor exit.name =
    .ok target := by
    refine ⟨s.loops.frames[depth.toNat], (if_pos enough).trans ?_⟩
    rw [List.getElem?_eq_getElem inside]
  obtain ⟨frame', waits, -⟩ :=
    wait_eq (s.list.extend (pendingPops s target.scopeDepth)).length reached
  rw [lowerKind_eq]
  refine ⟨_, run_bind_ok.2 ⟨frame, s, run_frame found,
    run_bind_ok.2 ⟨s, s, rfl, run_bind_ok.2 ⟨target, s,
    run_lift_ok.2 ⟨reached, rfl⟩, run_bind_ok.2 ⟨(), _, run_unwindTo _ _,
      run_bind_ok.2 ⟨_, _, run_pushSkip _,
      run_bind_ok.2 ⟨_, _, rfl, run_bind_ok.2 ⟨_, _, run_lift_ok.2 ⟨waits, rfl⟩, rfl⟩⟩⟩⟩⟩⟩⟩⟩

/-- What an accepted exit writes is a skip at the end of the list, which waits for the loop it
names. -/
theorem waits_of_run (h : run (lowerKind into (exit.kind depth)) s = some (.ok (), t)) :
    ∃ p frame, t.list.length = p + 1 ∧ t.list.get? p = some (.skip none) ∧ s.list.length ≤ p ∧
      t.loops.frames[depth.toNat]? = some frame ∧ p ∈ exit.waiting frame ∧
      t.loops.depth = s.loops.depth := by
  rw [lowerKind_eq] at h
  obtain ⟨frame, frames, target, loops, -, reached, added, rfl⟩ := run_leaveLoop_ok h
  obtain ⟨frame', waits, waiting⟩ := wait_eq _ reached
  cases added.symm.trans waits
  have inside : depth.toNat < s.loops.frames.length :=
    (List.getElem?_eq_some_iff.1 (LoopStack.frame_ok reached).2).1
  refine ⟨_, frame', ActionList.length_pushSkip _ _, ?_, ?_, List.getElem?_set_self inside, waiting,
    List.length_set⟩
  · rw [ActionList.get?_eq_toList, ActionList.pushSkip, ActionList.toList_push,
      ← ActionList.length_toList,
      List.getElem?_concat_length]
    rfl
  · rw [ActionList.length_extend]
    exact Nat.le_add_right _ _

end LoopExit

/-! ### Where an exit leads -/

theorem settled_closeCondition {s t : UnitState} {tail : List Action}
    (h : run closeCondition s = some (.ok tail, t)) : Settled tail := by
  obtain ⟨_, _, ⟨⟩, h₁⟩ := run_bind_ok.1 h
  obtain ⟨_, _, -, h₂⟩ := run_bind_ok.1 h₁
  cases h₂
  exact .flatMap (fun _ => .flatMap (fun v => settled_pop v none) _) _

/-- The tail of a loop has no skips, and the loop starts before its body. -/
theorem enter_ok (bodies : into.Composed) {l : Loop} {x : LoopBlock × List Action} {s t : UnitState}
    (h : run (l.enter into) s = some (.ok x, t)) : Settled x.2 ∧ x.1.start ≤ t.list.length := by
  have conditional (kind : LoopKind) (condition : Expr) (plain : ∀ array index,
    kind ≠ .forEach array index)
      {u : UnitState} (opened : run (openLoop into kind condition) s = some (.ok x, u)) :
      Settled x.2 ∧ x.1.start ≤ u.list.length := by
    have grows := ((Composed.openLoop bodies kind condition).evolves _ _ _ opened).covers.length_le
    obtain ⟨block, tail⟩ := x
    obtain ⟨_, v, -, rfl, closed⟩ := run_openLoop_ok plain opened
    exact ⟨settled_closeCondition closed, grows⟩
  cases l with
  | «while» condition body =>
    obtain ⟨_, u, opened, h₁⟩ := run_bind_ok.1 h
    cases h₁
    have entered := conditional .while condition (fun _ _ e => by cases e) opened
    exact entered
  | «for» condition step body =>
    obtain ⟨_, u, opened, h₁⟩ := run_bind_ok.1 h
    cases h₁
    have entered := conditional .for condition (fun _ _ e => by cases e) opened
    exact entered
  | forEach element index array body =>
    obtain ⟨⟨block, current⟩, u, opened, h₁⟩ := run_bind_ok.1 h
    obtain ⟨_, _, ⟨⟩, h₂⟩ := run_bind_ok.1 h₁
    obtain ⟨_, _, bound, h₃⟩ := run_bind_ok.1 h₂
    cases h₃
    obtain ⟨scope, rest, -, rfl⟩ := run_modifyScope_ok.1 bound
    obtain ⟨-, -, -, v, -, -, -, -, -, rfl, rfl⟩ := run_openForEach_ok opened
    refine ⟨.nil, ?_⟩
    show (v.list.extend _).length ≤ ((v.list.extend _).pushSkip _).length
    rw [ActionList.length_pushSkip]
    exact Nat.le_succ _

/-- The positions that the exits of a loop lead to when its lowering starts in this state: where its
epilogue starts, and where it ends, right behind the tail at its exit. -/
structure Spans (into : Expander) (l : Loop) (s : UnitState) (epilogue exit : Nat)
    (tail : List Action) (last : Nat) : Prop where
  round : ∃ block t, run (l.round into) s = some (.ok (block, tail), t) ∧ t.list.length = epilogue
  ended : ∃ t, run (l.lower into) s = some (.ok (), t) ∧ t.list.length = last
  behind : exit + tail.length = last

/-- In a finished list the skip that an exit writes leads to where its loop goes on or ends. -/
def LoopExit.Hits (into : Expander) (exit : LoopExit) (depth : UInt32) (l : Loop)
    (start u : UnitState) (F : ActionList) : Prop :=
  ∃ t p epilogue out tail last, run (lowerKind into (exit.kind depth)) u = some (.ok (), t) ∧
    t.list.length = p + 1 ∧ t.list.get? p = some (.skip none) ∧ Covers F t.list ∧
      Spans into l start epilogue out tail last ∧ ActsAt F out tail ∧
        SkipAt F p (exit.target epilogue last)

theorem Encloses.hits (composed : into.Composed) (bodies : into.Level) {p : Fragment}
    {s t u start : UnitState} {l : Loop} {exit : LoopExit} {depth : UInt32} {a : p.Out}
    {F : ActionList} (h : Encloses into p s l start depth.toNat (exit.kind depth) u)
    (done : run (p.lower into) s = some (.ok a, t)) (covers : Covers F t.list)
    (check : F.check = .ok ()) (short : F.length < 2 ^ 32) : exit.Hits into depth l start u F := by
  obtain ⟨comes, x, o, entered, inside, depths⟩ := h
  -- the loop as a whole, and its parts
  obtain ⟨_, v, lowered, evolves⟩ := comes.ends done
  have coversLoop : Covers F v.list := evolves.covers.trans covers
  obtain ⟨x', r, block, w, y, round, closed, stepped, ended⟩ := Loop.run_lower_ok lowered
  obtain ⟨o', e, entered', body, left⟩ := Loop.run_round_ok.1 round
  cases entered.symm.trans entered'
  -- the exit in its body
  obtain ⟨_, t', ran, evolves'⟩ := inside.ends body
  obtain ⟨q, waited, length, skip, later, waitsAt, waiting, same⟩ := exit.waits_of_run ran
  -- the innermost loop behind the body is the one that the exit names
  obtain ⟨frame, rest, list, found, begun, rounds, rfl, rfl⟩ := run_epilogue_ok closed
  obtain ⟨scope, _, _, -, -, rfl⟩ := run_closeScope_ok left
  have found : e.loops.frames = frame :: rest := found
  obtain ⟨settled, starts⟩ := enter_ok composed entered
  have waits : waited.Waits frame := by
    have grows : o.list.length ≤ u.list.length :=
      inside.holds (P := fun s => o.list.length ≤ s.list.length)
      (fun part ran le => Nat.le_trans le (part.evolves _ _ _ ran).covers.length_le)
        (fun _ le => le) (Nat.le_refl _)
    obtain before | ⟨j, other, known, around, waits⟩ :=
      evolves'.loops 0 frame (by rw [UnitState.flow, found]; rfl)
    · -- it is not opened behind the exit
      have before : t'.list.length ≤ frame.start := before
      omega
    · have level := (Level.stmts bodies _ _ _ _ body).2
      have around : j + e.loops.depth = 0 + t'.loops.depth := around
      have level : e.loops.depth = o.loops.depth := level
      obtain rfl : j = depth.toNat := by omega
      cases known.symm.trans waitsAt
      exact waits
  -- what the end of the loop resolves, from the last list to the first
  obtain ⟨next, guard, ended', done, -, -, guarded, breaks, rfl⟩ := run_closeLoop_ok rfl ended
  obtain ⟨coversTail, brokenLed⟩ := coversLoop.resolveAll breaks
  obtain ⟨coversEnded, tailAt, last⟩ := coversTail.actsAt (ActionList.toList_extend _ _) settled
  have coversStep : Covers F y.list :=
    .trans (.extended _ _) (.trans (.pushed _ _) (coversEnded.resolveHere guarded).1)
  have coversRound : Covers F list :=
    ((Composed.between composed l).evolves _ _ _ stepped).covers.trans coversStep
  obtain ⟨coversBody, continuedLed⟩ := coversRound.resolveAll rounds
  have coversExit : Covers F t'.list := evolves'.covers.trans (.trans (.extended _ _) coversBody)
  have spans : Spans into l start _ ended'.length x.2 done.length :=
    ⟨⟨x.1, _, round, rfl⟩, ⟨_, lowered, rfl⟩, last.symm.trans (length_resolveAll breaks).symm⟩
  obtain ⟨a, filled, fills⟩ := coversExit q _ skip
  have hits (led : Led F q (exit.target (e.list.extend (scopePops scope)).length done.length)) :
      exit.Hits into depth l start u F :=
    ⟨t', q, _, _, x.2, _, ran, length, skip, coversExit, spans, tailAt,
      led.skipAt_of_check short check filled fills⟩
  cases exit with
  | «break» => exact hits (length_resolveAll breaks ▸ brokenLed q (waits.breaks waiting))
  | «continue» => exact hits (continuedLed q (waits.continues waiting))

/-! ## Bodies -/

/-- A body that is expanded is lowered in its frame, behind what its parameters are bound to. -/
theorem ComesTo.expandedBody (bodies : into.Composed) {key : String} {params : List String}
    {body : List Stmt} {receiver : Option Element} {arguments : List Element}
    {result : Option IndexedVar} {s t : UnitState}
    (bound : run (bindCall receiver params arguments)
      (s.opened.entered (s.expanded (some key) result)) =
      some (.ok (), t)) :
    ComesTo (expandBody into key params body receiver arguments result) s (into.block body) t := by
  have bind : Composed (do
      bindCall receiver params arguments
      into.block body) := .bind (Composed.rules.bindCall _ _ _) fun _ => bodies.block _
  have framed (frame : Frame) : Composed (do
      pushFrame frame
      bindCall receiver params arguments
      into.block body) := .bind (.slotless (.pushFrame _)) fun _ => bind
  have inside : ComesTo (do
      pushFrame (s.expanded (some key) result)
      bindCall receiver params arguments
      into.block body) s.opened (into.block body) t :=
    .later (.slotless (.pushFrame _)) (fun _ => bind) rfl
      (.later (Composed.rules.bindCall _ _ _) (fun _ => bodies.block _) bound .here)
  rw [expandBody_eq]
  exact .later (.slotless (.expandedFrame _ _))
    (fun frame => .bind (.inScope (framed frame)) fun _ => .slotless .closeFrame) rfl
    (.first (.inScope (framed _)) (fun _ => .slotless .closeFrame)
      ((ComesTo.inScope (framed (s.expanded (some key) result))).trans inside))

/-- The body of a region is lowered in its frame, behind what declares the stacks of the region. -/
theorem ComesTo.regionBody (bodies : into.Composed) {key : String} {params : List String}
    {body : List Stmt} {receiver : Option Element} {arguments : List Element}
    {result address : IndexedVar} {region : Region} {s t u v : UnitState}
    (ret : run (temp "ret") s = some (.ok result, t))
    (addr : run (temp "addr") t = some (.ok address, u))
    (opened : run (openRegion key params receiver arguments result) u.opened =
      some (.ok region, v)) :
    ComesTo (expandRegion into key params body receiver arguments) s (into.block body)
      ((v.entered (u.activation key result)).within region) := by
  -- what is left to do, from the end of the body backwards to the declarations of the region
  have closing (address : IndexedVar) : Composed (closeRegion address) :=
    .bind (.slotless .closeFrame) fun _ => .bind (.slotless .popRegion) fun _ =>
      .bind (.emit _) fun _ => .pure _
  have written (address : IndexedVar) : Composed (do
      into.block body
      closeRegion address) := .bind (bodies.block _) fun _ => closing address
  have framed (address : IndexedVar) (frame : Frame) (region : Region) : Composed (do
      pushFrame frame
      pushRegion region
      into.block body
      closeRegion address) :=
    .bind (.slotless (.pushFrame _)) fun _ => .bind (.slotless (.pushRegion _)) fun _ =>
      written address
  have whole (result address : IndexedVar) (frame : Frame) : Composed (do
      let region ← openRegion key params receiver arguments result
      pushFrame frame
      pushRegion region
      into.block body
      closeRegion address) :=
    .bind (Composed.rules.openRegion _ _ _ _ _) fun region => framed address frame region
  have behind (result address : IndexedVar) (sites : List Nat) : Composed (do
      dispatch address 0 sites
      return result.get none) := .bind (.slotless (.dispatch _ _ _)) fun _ => .pure _
  have inside : ComesTo (do
      let region ← openRegion key params receiver arguments result
      pushFrame (u.activation key result)
      pushRegion region
      into.block body
      closeRegion address) u.opened (into.block body)
        ((v.entered (u.activation key result)).within region) :=
    .later (Composed.rules.openRegion _ _ _ _ _) (fun region => framed address _ region) opened
      (.later (.slotless (.pushFrame _)) (fun _ => .bind (.slotless (.pushRegion _)) fun _ =>
        written address) rfl
        (.later (.slotless (.pushRegion _)) (fun _ => written address) rfl
          (.first (bodies.block _) (fun _ => closing address) .here)))
  rw [expandRegion_eq]
  exact .later (.temp _) (fun result => .bind (.temp _) fun address =>
    .bind (.slotless (.expandedFrame _ _)) fun _ =>
      .bind (.inScope (whole result address _)) fun sites => behind result address sites) ret
    (.later (.temp _) (fun address => .bind (.slotless (.expandedFrame _ _)) fun _ =>
        .bind (.inScope (whole result address _)) fun sites => behind result address sites) addr
      (.later (.slotless (.expandedFrame _ _)) (fun _ =>
          .bind (.inScope (whole result address _)) fun sites => behind result address sites) rfl
        (.first (.inScope (whole result address _)) (fun sites => behind result address sites)
          ((ComesTo.inScope (whole result address (u.activation key result))).trans inside))))

/-- A unit is lowered in its frame, in a scope of its own. -/
theorem ComesTo.unitBody {body : Lower Unit} {m : Lower α} {s t : UnitState}
    (composed : Composed body) (inside : ComesTo body (s.entered unitFrame).opened m t) :
    ComesTo (unitBody body) s m t :=
  .later (.slotless (.pushFrame _)) (fun _ => .bind (.inScope composed) fun _ =>
      .bind (.slotless .closeFrame) fun _ => .finish) rfl
    (.first (.inScope composed) (fun _ => .bind (.slotless .closeFrame) fun _ => .finish)
      ((ComesTo.inScope composed).trans inside))

/-- Lowering a unit comes to the statements of a body, with bodies inside nested at most so deep:
those of the rule itself, those of a method or constructor that is expanded, or those of the region
of a recursive method. -/
inductive Starts : Lower ActionList → UnitState → (depth : Nat) → List Stmt → UnitState → Prop
  | rule {depth : Nat} {body : List Stmt} {s : UnitState} :
      Starts (unitBody (lowerStmts (expander depth) body)) s depth body (s.entered unitFrame).opened
  | expanded {m : Lower ActionList} {depth : Nat} {key : String} {params : List String}
      {body : List Stmt} {receiver : Option Element} {arguments : List Element}
      {result : Option IndexedVar} {s t u : UnitState} :
      ComesTo m s (expandBody (expander (depth + 1)) key params body receiver arguments result) t →
      run (bindCall receiver params arguments) (t.opened.entered (t.expanded (some key) result)) =
        some (.ok (), u) → Starts m s depth body u.opened
  | region {m : Lower ActionList} {depth : Nat} {key : String} {params : List String}
      {body : List Stmt} {receiver : Option Element} {arguments : List Element}
      {result address : IndexedVar} {region : Region} {s t u v w : UnitState} :
      ComesTo m s (expandRegion (expander (depth + 1)) key params body receiver arguments) t →
      run (temp "ret") t = some (.ok result, u) → run (temp "addr") u = some (.ok address, v) →
      run (openRegion key params receiver arguments result) v.opened = some (.ok region, w) →
      Starts m s depth body ((w.entered (v.activation key result)).within region).opened

namespace Starts

variable {m : Lower ActionList} {depth : Nat} {body : List Stmt} {s u : UnitState}

/-- In a body that starts no loop is open yet: all of them are those of callers. -/
theorem floor (h : Starts m s depth body u) (fresh : s.loops.depth = 0) :
    ∃ rest, u.floors = u.loops.depth :: rest := by
  cases h with
  | rule => exact ⟨s.floors, congrArg (· :: s.floors) fresh.symm⟩
  | @expanded _ _ _ _ _ _ _ _ _ t _ _ bound =>
    obtain ⟨floors, depth⟩ := Level.plain (Plain.rules.bindCall _ _ _) _ _ _ bound
    exact ⟨t.floors, floors.trans (congrArg (· :: t.floors) depth.symm)⟩
  | @region _ _ _ _ _ _ _ _ _ _ _ _ _ v w _ _ _ opened =>
    obtain ⟨-, depth⟩ := Level.plain (Plain.rules.openRegion _ _ _ _ _) _ _ _ opened
    exact ⟨w.floors, congrArg (· :: w.floors) depth.symm⟩

theorem comesTo (h : Starts m s depth body u) :
    ComesTo m s (lowerStmts (expander depth) body) u := by
  have lowered : Composed (lowerStmts (expander depth) body) := .stmts (.expander depth) body
  -- an expanded body opens a scope of its own
  have block {t : UnitState} :
      ComesTo ((expander (depth + 1)).block body) t (lowerStmts (expander depth) body) t.opened :=
    .inScope lowered
  cases h with
  | rule => exact .unitBody lowered .here
  | expanded comes bound =>
    exact comes.trans ((ComesTo.expandedBody (.expander _) bound).trans block)
  | region comes ret addr opened =>
    exact comes.trans ((ComesTo.regionBody (.expander _) ret addr opened).trans block)

end Starts

end Lower

/-- A unit that succeeds gives the list it has written, which is fit to run. -/
theorem Session.Runs.finished {σ : Session} {unit : String} {pool : Pool} {m : Lower ActionList}
    (runs : σ.Runs unit pool m) {s t : UnitState} {F : ActionList}
      (ran : run m s = some (.ok F, t)) :
    t.list = F ∧ F.check = .ok () := by
  cases runs with
  | rule | statics =>
    obtain ⟨s₁, s₂, frame, frames, -, -, -, -, rfl, check⟩ := run_unitBody_ok ran
    exact ⟨rfl, check⟩

/-- A `break` or `continue` that lowering comes to is refused, and the unit with it, when fewer
loops than it needs lie between the start of its body and itself. Otherwise it is accepted, and in a
unit that succeeds with fewer than `2 ^ 32` actions its skip leads where the loop it names goes on
or ends. -/
theorem Session.Runs.exits_reach_loops {σ : Session} {unit : String} {pool : Pool}
    {m : Lower ActionList} (runs : σ.Runs unit pool m) {depth : Nat} {body : List Stmt}
    {s u : UnitState} {exit : LoopExit} {between : UInt32} {loops : List (Loop × UnitState)}
    (starts : Starts m (.new σ unit pool) depth body s)
    (within : Within (expander depth) (.stmts body) s loops (exit.kind between) u) :
    (loops.length ≤ between.toNat →
      (∃ t, run (lowerKind (expander depth) (exit.kind between)) u =
        some (.error (.unsupported (.noSuchLoop exit.name between)), t)) ∧
      ∃ e t, run m (.new σ unit pool) = some (.error e, t) ∧
        e.cause = .unsupported (.noSuchLoop exit.name between)) ∧
    (between.toNat < loops.length →
      (∃ t, run (lowerKind (expander depth) (exit.kind between)) u = some (.ok (), t)) ∧
      ∀ F last, run m (.new σ unit pool) = some (.ok F, last) → F.length < 2 ^ 32 →
        ∃ l start, loops[between.toNat]? = some (l, start) ∧
          exit.Hits (expander depth) between l start u F) := by
  have composed : (expander depth).Composed := .expander depth
  have bodies : (expander depth).Level := .expander depth
  -- above the floor of the body are the loops on the way to the exit
  obtain ⟨rest, floor⟩ := starts.floor rfl
  obtain ⟨floors, opened⟩ := within.level bodies
  rw [floor] at floors
  obtain ⟨frame, frames, found, floor'⟩ : ∃ frame frames, u.frames = frame :: frames ∧
      frame.loopFloor = s.loops.depth := by
    cases found : u.frames with
    | nil =>
      rw [UnitState.floors, found] at floors
      cases floors
    | cons frame frames =>
      rw [UnitState.floors, found] at floors
      exact ⟨frame, frames, rfl, (List.cons.inj floors).1⟩
  have comes := starts.comesTo.trans (within.comesTo composed)
  constructor
  · intro few
    have refused : run (lowerKind (expander depth) (exit.kind between)) u =
        some (.error (.unsupported (.noSuchLoop exit.name between)), u) :=
      LoopExit.run_refused found (by omega)
    exact ⟨⟨u, refused⟩, comes.fails refused⟩
  · intro enough
    refine ⟨LoopExit.run_accepted found (by omega), fun F last ran short => ?_⟩
    obtain ⟨rfl, check⟩ := runs.finished ran
    obtain ⟨_, t, lowered, evolves⟩ := starts.comesTo.ends ran
    have known : loops[between.toNat]? = some loops[between.toNat] :=
      List.getElem?_eq_getElem enough
    have encloses := within.encloses composed bodies known
    exact ⟨_, _, known, encloses.hits composed bodies lowered evolves.covers check short⟩

namespace OuterBreak

def exit : List Stmt := [.ofKind (.break 1)]

def inner : List Stmt := [.ofKind (.while (.bool true) exit)]

/-- A rule that leaves the outer one of two loops from the inner one. -/
def body : List Stmt := [.ofKind (.while (.bool true) inner)]

def output? : Option UnitOutput :=
  match Session.new .default ⟨[], [], []⟩ with
  | .error _ => none
  | .ok σ => σ.lowerUnit "rule" .global body

/-- A loop that is lowered comes to its body. -/
theorem within_while {into : Expander} {condition : Expr} {inside : List Stmt} {s t : UnitState}
    (h : run (lowerStmts into [.ofKind (.while condition inside)]) s = some (.ok (), t)) :
    ∃ start o e, run (lowerStmts into inside) o = some (.ok (), e) ∧
      ∀ {loops k u}, Within into (.stmts inside) o loops k u →
        Within into (.stmts [.ofKind (.while condition inside)]) s
          (loops ++ [(.while condition inside, start)])
          k u := by
  rw [lowerStmts] at h
  obtain ⟨_, v, h, -⟩ := run_bind_ok.1 h
  rw [Stmt.ofKind, lowerStmt] at h
  obtain ⟨w, h, -⟩ := run_located_ok h
  rw [lowerKind_while] at h
  obtain ⟨x, r, -, -, -, round, -⟩ := Loop.run_lower_ok h
  obtain ⟨o, e, entered, lowered, -⟩ := Loop.run_round_ok.1 round
  exact ⟨_, o, e, lowered, fun within =>
    .inner .head (.inner .located (.inner .while (.body entered within)))⟩

end OuterBreak

open OuterBreak in
/-- The break leads behind the outer loop. On its own, without a loop around it, it is refused. -/
theorem exits_reach_loops_outer_break : ∃ σ F last start u,
    Session.new .default ⟨[], [], []⟩ = .ok σ ∧
      run (unitBody (lowerStmts (expander (expansionBound σ)) body)) (.new σ "rule" .global) =
        some (.ok F, last) ∧ F.length < 2 ^ 32 ∧
      LoopExit.break.Hits (expander (expansionBound σ)) 1 (.while (.bool true) inner) start u F ∧
      ∃ e t, run (unitBody (lowerStmts (expander (expansionBound σ)) exit))
        (.new σ "rule" .global) =
        some (.error e, t) ∧ e.cause = .unsupported (.noSuchLoop "break" 1) := by
  have succeeds : output?.any (fun output => output.result.toOption.any (·.length < 2 ^ 32)) =
    true := by
    decide +kernel
  unfold output? at succeeds
  split at succeeds
  · cases succeeds
  · next σ start =>
    obtain ⟨output, found, short⟩ := (Option.any_eq_true _ _).1 succeeds
    unfold Session.lowerUnit Session.runUnit at found
    obtain ⟨⟨r, last⟩, ran, e⟩ := Option.bind_eq_some_iff.1 found
    cases e
    cases r with
    | error _ => cases short
    | ok F =>
      have short : F.length < 2 ^ 32 := of_decide_eq_true short
      have starts : Starts _ (.new σ "rule" .global) (expansionBound σ) body _ := .rule
      obtain ⟨_, t, lowered, -⟩ := starts.comesTo.ends ran
      obtain ⟨outer, o, e, lowered, within⟩ := within_while lowered
      obtain ⟨nested, o', e', -, within'⟩ := within_while lowered
      have way : Within (expander (expansionBound σ)) (.stmts body)
          ((UnitState.new σ "rule" .global).entered unitFrame).opened
          [(.while (.bool true) exit, nested), (.while (.bool true) inner, outer)]
            (LoopExit.break.kind 1) _ :=
        within (within' (.inner .head (.inner .located .here)))
      obtain ⟨-, accepted⟩ := Session.Runs.exits_reach_loops (.rule "rule" .global body) starts way
      obtain ⟨-, lands⟩ := accepted (Nat.lt_succ_self 1)
      obtain ⟨l, start', known, hits⟩ := lands F last ran short
      cases known
      have alone : Within (expander (expansionBound σ)) (.stmts exit)
          ((UnitState.new σ "rule" .global).entered unitFrame).opened []
            (LoopExit.break.kind 1) _ :=
        .inner .head (.inner .located .here)
      obtain ⟨refused, -⟩ := Session.Runs.exits_reach_loops (.rule "rule" .global exit) .rule alone
      exact ⟨σ, F, last, outer, _, start, ran, short, hits, (refused (by decide)).2⟩

namespace LongLoop

variable {into : Expander} {n : Nat}

/-- The exit lies in the loop. -/
theorem within_body :
    Within into (.stmts (body n)) start [(.while (.bool true) (inside n), declared)]
    (LoopExit.break.kind 0) opened.opened := by
  have entered : run ((Loop.while (.bool true) (inside n)).enter into) declared =
      some (.ok (⟨.while, .guarded, 0, some 0, []⟩, []), opened.opened) :=
    run_bind_ok.2 ⟨_, _, run_openLoop, rfl⟩
  have exit : Within into (.stmts (inside n)) opened.opened []
    (LoopExit.break.kind 0) opened.opened :=
    .inner .head (.inner .located .here)
  exact .inner (.tail run_declaration) (.inner .head
    (.inner .located (.inner .while (.body entered exit))))

/-- An exit that leads where it is meant to leads behind the loop. -/
theorem skipAt_of_hits {list : ActionList}
    (hits : LoopExit.break.Hits into 0 (.while (.bool true) (inside n)) declared
      opened.opened list) :
    SkipAt list 1 (n + 3) := by
  obtain ⟨t, p, epilogue, out, tail, last, ran, length, -, -, spans, -, lands⟩ := hits
  cases run_break.symm.trans ran
  obtain rfl : p = 1 := (Nat.succ.inj length).symm
  obtain ⟨u, lowered, rfl⟩ := spans.ended
  rw [← lowerKind_while] at lowered
  cases run_while.symm.trans lowered
  exact length_done n ▸ lands

end LongLoop

open LongLoop in
/-- Behind a `break` that has `2 ^ 32` assignments to pass the unit succeeds, but its skip leads to
the third action of its own loop. -/
theorem break_lands_inside : ∃ F last,
    Session.new .default ⟨[], [], []⟩ = .ok session ∧
      run (unitBody (lowerStmts (expander (expansionBound session)) (body (2 ^ 32))))
        (.new session "rule" .global) = some (.ok F, last) ∧
      Within (expander (expansionBound session)) (.stmts (body (2 ^ 32))) start
        [(.while (.bool true) (inside (2 ^ 32)), declared)] (LoopExit.break.kind 0) opened.opened ∧
      SkipAt F 1 3 ∧
      ¬ LoopExit.break.Hits (expander (expansionBound session)) 0
        (.while (.bool true) (inside (2 ^ 32))) declared opened.opened F := by
  have lowered := @run_unit (expander (expansionBound session)) (2 ^ 32)
  rw [checked, check_done_around] at lowered
  have lands : SkipAt (done (2 ^ 32)) 1 3 := skipAt_done rfl
  refine ⟨_, _, session_new, lowered, within_body, lands, fun hits => ?_⟩
  have behind := skipAt_of_hits hits
  have same : 3 = 2 ^ 32 + 3 := lands.unique behind
  cases same

end SkipCode
