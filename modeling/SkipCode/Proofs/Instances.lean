import SkipCode.Proofs.Issued
import SkipCode.Proofs.Outcomes
import SkipCode.Proofs.Passes
import SkipCode.Proofs.Steps
import SkipCode.Source.Build

/-!
# Instances form a heap

Straight units that run one after the other, each to its end, use the storage of instances as a
heap: in every run, wherever a statement starts, the code of the session reads the fields of the
live instances as they were written last, whatever happened to other instances in between, and a
handle that is made is that of no live instance (`instances_form_heap`).

Each statement is lowered to code with one of four effects (`Straight`), so a run follows the events
of its statements (`Straight.moments`), and with it the storage follows those of all runs
(`Performed.moments`).
-/

namespace SkipCode

open Engine (Host Memory)
open Lower
open Source (Expr Program Stmt StmtKind)

/-! ## Events one behind the other -/

namespace Heap

variable {t : ClassTable} {σ : Session} {H : Heap} {first second : List HeapEvent}

/-- Events one behind the other change the heap in turn. -/
theorem after_append : H.after t (first ++ second) = (H.after t first).after t second :=
  List.foldl_append

/-- They are legal in turn. -/
theorem legal_append :
    H.legal t (first ++ second) = (H.legal t first && (H.after t first).legal t second) := by
  induction first generalizing H with
  | nil => rfl
  | cons ev rest ih =>
    rw [List.cons_append, legal, ih, ← Bool.and_assoc]
    rfl

/-- They agree with what is read in turn. -/
theorem agrees_append {moments others : List Moment} : H.Agrees σ (moments ++ others) ↔
    H.Agrees σ moments ∧ (H.after σ.classes (moments.flatMap Moment.events)).Agrees σ others := by
  induction moments generalizing H with
  | nil => exact ⟨fun agrees => ⟨trivial, agrees⟩, And.right⟩
  | cons moment rest ih =>
    rw [List.cons_append, Agrees, ih, List.flatMap_cons, after_append, Agrees, and_assoc, and_assoc]

end Heap

/-- The storage follows the events of several moments, and the heap agrees with them. -/
def Session.FollowsAll (σ : Session) (c : Engine.Config) (m : Memory) (moments : List Moment)
    (m' : Memory) : Prop :=
  ∀ H : Heap, H.Stored σ.classes σ.classData c m →
    H.legal σ.classes (moments.flatMap Moment.events) = true →
      H.Agrees σ moments ∧
        (H.after σ.classes (moments.flatMap Moment.events)).Stored σ.classes σ.classData c m'

namespace Session.FollowsAll

variable {σ : Session} {c : Engine.Config} {m m₁ m' : Memory} {moments others : List Moment}

/-- Without moments the memory stays as it is. -/
theorem nil (follows : σ.Follows c m [] m') : σ.FollowsAll c m [] m' := fun H stored legal =>
  ⟨trivial, (follows H stored legal).1⟩

/-- Events follow in turn. -/
theorem trans (h₁ : σ.FollowsAll c m moments m₁) (h₂ : σ.FollowsAll c m₁ others m') :
    σ.FollowsAll c m (moments ++ others) m' := by
  intro H stored legal
  rw [List.flatMap_append, Heap.legal_append] at legal
  obtain ⟨legal₁, legal₂⟩ := Bool.and_eq_true_iff.1 legal
  obtain ⟨agrees₁, stored₁⟩ := h₁ H stored legal₁
  obtain ⟨agrees₂, stored₂⟩ := h₂ _ stored₁ legal₂
  refine ⟨Heap.agrees_append.2 ⟨agrees₁, agrees₂⟩, ?_⟩
  rwa [List.flatMap_append, Heap.after_append]

/-- A statement is a moment. -/
theorem one {h : Host} {events : List HeapEvent} (built : σ.classes.Built)
    (sound : σ.classData.Sound) (follows : σ.Follows h.config m events m') :
    σ.FollowsAll h.config m [⟨h.context m, events⟩] m' := by
  intro H stored legal
  rw [List.flatMap_singleton] at legal ⊢
  obtain ⟨stored', fresh⟩ := follows H stored legal
  have shown : H.Shown σ (h.context m) := Heap.Stored.shown built sound stored
  exact ⟨⟨shown, fresh, trivial⟩, stored'⟩

end Session.FollowsAll

/-! ## Straight code -/

/-- Statements that are lowered one behind the other, each with an effect. -/
inductive Straight (into : Expander) : UnitState → List Stmt → UnitState → Prop
  | nil {s} : Straight into s [] s
  | cons {s t u kind span rest actions f} :
      run (lowerKind into kind) { s with span } = some (.ok (), t) →
      UnitState.Appends { s with span } actions t → Effect t actions f →
      (∀ before after, kind.events into { s with span } before after = f before after) →
      Straight into { t with span := s.span } rest u → Straight into s (.mk kind span :: rest) u

section

variable {into : Expander} {s t u : UnitState} {body : List Stmt}

/-- A span does not matter to what is appended. -/
theorem UnitState.Appends.span {actions : List Action} {span : Source.Span}
    (h : UnitState.Appends { s with span } actions t) :
    s.Appends actions { t with span := s.span } := by
  obtain ⟨list, frames, ⟨unit, pool, session, symbols, hidden, deferred⟩, noted⟩ := h
  exact ⟨list, frames, ⟨unit, pool, session, symbols, hidden, deferred⟩, noted⟩

/-- Nor to what a state fits. -/
theorem UnitState.Fits.fromSpan {σ : Session} {span : Source.Span}
    (h : UnitState.Fits { s with span } σ) : s.Fits σ :=
  ⟨h.classes, h.grows, h.apart, h.distinct⟩

/-- The simple statements of a unit are straight code. -/
theorem straight_of_run (bodies : into.Yields) (plain : into.Plain)
    (frame : s.inRecursiveFrame = false) (noted : s.Noted)
    (simple : ∀ stmt ∈ body, stmt.kind.simple s.session.classes = true)
    (h : run (lowerStmts into body) s = some (.ok (), u)) (clean : u.deferred = []) :
    Straight into s body u := by
  induction body generalizing s with
  | nil =>
    rw [lowerStmts] at h
    cases h
    exact .nil
  | cons stmt rest ih =>
    obtain ⟨kind, span⟩ := stmt
    rw [lowerStmts] at h
    obtain ⟨_, t, h₁, h₂⟩ := run_bind_ok.1 h
    obtain ⟨_, lowers, -⟩ := yields_stmts bodies rest t () u h₂ clean
    rw [lowerStmt] at h₁
    obtain ⟨t', lowered, rfl⟩ := run_located_ok h₁
    have acts : Acts into kind { s with span } t' :=
      acts_kind (s := { s with span }) plain frame noted (simple _ List.mem_cons_self) lowered
        (lowers.clean clean)
    obtain ⟨actions, f, appends, effect, events⟩ := acts
    -- the position in the source does not matter for what was appended
    have next := appends.span
    refine .cons lowered appends effect events
      (ih (next.plain frame) (next.noted noted) (fun stmt mem => ?_) h₂)
    rw [next.grows.session.classes]
    exact simple stmt (List.mem_cons_of_mem _ mem)

/-- A straight body only appends. -/
theorem Straight.appends (straight : Straight into s body u) : ∃ actions, s.Appends actions u := by
  induction straight with
  | nil => exact ⟨[], .refl _⟩
  | cons _ first _ _ _ ih =>
    obtain ⟨actions, rest⟩ := ih
    exact ⟨_, first.span.trans rest⟩

/-- A run of straight code has moments, and the storage follows them. -/
theorem Straight.moments {σ : Session} {h : Host} {list : ActionList} {pe : Nat} {m me : Memory}
    (straight : Straight into s body u) (fits : u.Fits σ) (built : σ.classes.Built)
    (sound : σ.classData.Sound) (short : list.length < 2 ^ 63)
    (begins : u.list.toList <+: list.toList) (passes : Passes h list s.list.length m pe me) :
    ∃ m' moments, Script.momentsFrom into h list s m body = some moments ∧
      Passes h list u.list.length m' pe me ∧ σ.FollowsAll h.config m moments m' := by
  induction straight generalizing m with
  | nil => exact ⟨m, [], rfl, passes, .nil (.quiet ⟨rfl, fun _ _ => rfl⟩)⟩
  | @cons s t u kind span rest actions f lowered first effect events others ih =>
    obtain ⟨_, more⟩ := others.appends
    have part : t.list.toList <+: list.toList :=
      List.IsPrefix.trans ⟨_, more.list.symm⟩ begins
    have length : t.list.length = s.list.length + actions.length := by
      rw [← ActionList.length_toList, first.list, List.length_append, ActionList.length_toList]
    obtain ⟨m₁, evs, go, passes₁, found, follows⟩ := effect.passes (fits.before more.grows).fromSpan
      built sound short (actsAt_of_begins first.list part) passes
    rw [← length] at go passes₁
    obtain ⟨m', moments, told, passes', all⟩ := ih fits begins passes₁
    have inside : t.list.length ≤ list.length := by
      have := part.length_le
      rwa [ActionList.length_toList, ActionList.length_toList] at this
    have reached : h.upTo list t.list.length list.length s.list.length m = some m₁ :=
      go.upTo (by omega)
    refine ⟨m', ⟨h.context m, evs⟩ :: moments, ?_, passes', .trans (.one built sound follows) all⟩
    -- the script finds the same statement, the same run and the same events
    have whole : run (lowerStmt into (.mk kind span)) s =
      some (.ok (), { t with span := s.span }) := by
      rw [lowerStmt]
      show (run (lowerKind into kind) { s with span }).bind _ = _
      rw [lowered]
      rfl
    rw [Script.momentsFrom, whole]
    show (h.upTo list t.list.length list.length s.list.length m).bind _ = _
    rw [reached, Option.bind_some]
    show ((kind.events into { s with span } (h.context m) (h.context m₁))).bind _ = _
    rw [events, found, Option.bind_some]
    show (Script.momentsFrom into h list { t with span := s.span } m₁ rest).bind _ = _
    rw [told]
    rfl

end

/-! ## Straight units -/

section

variable {config : LowerConfig} {program : Program} {past : List Symbol} {σ : Session} {u : Script}

/-- The storage of a session grows with every unit that is lowered without a failure. -/
theorem Session.Lowered.grows {body : List Stmt} {output : UnitOutput} {list : ActionList}
    (lowered : σ.Lowered body output) (result : output.result = .ok list)
    (clean : output.deferred = []) :
    σ.Grows output.session := by
  cases lowered with
  | rule h =>
    obtain ⟨c, pops, last, closed, code⟩ := unitCode_of_lowerUnit h result clean
    exact code.session ▸ code.lowers.steady.grows.session.trans code.closes.grows.session
  | statics h =>
    obtain ⟨c, pops, last, closed, code⟩ := unitCode_of_lowerStaticInit h result clean
    exact code.session ▸ code.lowers.steady.grows.session.trans code.closes.grows.session

/-- A straight unit that was lowered in an earlier session. -/
structure Script.Before (config : LowerConfig) (program : Program) (past : List Symbol)
    (σ : Session) (u : Script) (output : UnitOutput) : Prop where
  history : ∃ earlier, History config program earlier u.session
  lowered : u.session.lowerUnit u.name u.pool u.body = some output
  result : output.result = .ok u.list
  clean : output.deferred = []
  grows : output.session.Grows σ
  symbols : output.symbols ⊆ past

/-- A unit stays lowered before while the session goes on. -/
theorem Script.Before.later {output : UnitOutput} {σ' : Session}
    (h : u.Before config program past σ output) (grows : σ.Grows σ') (more : List Symbol) :
    u.Before config program (more ++ past) σ' output :=
  { h with
    grows := h.grows.trans grows
    symbols := fun _ mem => List.mem_append_right _ (h.symbols mem) }

/-- Units that were lowered in turn are a history. -/
theorem Scripted.history {scripts : List Script} (h : Scripted config program scripts past σ) :
    History config program past σ := by
  induction h with
  | start h => exact .start h
  | script _ h _ _ ih => exact .unit ih h
  | other _ h _ _ ih =>
    cases h with
    | rule h => exact .unit ih h
    | statics h => exact .statics ih h

/-- Each of them was lowered at its place in it. -/
theorem Scripted.before {scripts : List Script} (h : Scripted config program scripts past σ) :
    ∀ u ∈ scripts, ∃ output, u.Before config program past σ output := by
  induction h with
  | start => exact List.forall_mem_nil _
  | script before h result clean ih =>
    refine List.forall_mem_append.2 ⟨fun u mem => ?_, fun u mem => ?_⟩
    · obtain ⟨output, earlier⟩ := ih u mem
      exact ⟨output, earlier.later ((Session.Lowered.rule h).grows result clean) _⟩
    · rw [List.mem_singleton.1 mem]
      exact ⟨_, ⟨_, before.history⟩, h, result, clean, .refl _, List.subset_append_left _ _⟩
  | other _ h result clean ih =>
    intro u mem
    obtain ⟨output, earlier⟩ := ih u mem
    exact ⟨output, earlier.later (h.grows result clean) _⟩

/-- Without reuse the storage of a session is in whole slots of the shared store, each noted once.
-/
theorem History.sound (h : History config program past σ) (noReuse : config.reuseSlots = false) :
    σ.classData.Sound :=
  have orderly := (h.orderly noReuse "" .global).session
  ⟨h.whole, orderly.shared, orderly.distinct⟩

/-- The code of a straight unit, up to where its scope is closed. -/
structure Script.Code (u : Script) (last : UnitState) (pops : List Action) : Prop where
  straight : Straight (expander (expansionBound u.session))
    (u.session.start u.name u.pool) u.body last
  list : u.list.toList = last.list.toList ++ pops
  pops : ∀ a ∈ pops, a.Within last.ownPlaces
  check : u.list.check = .ok ()

/-- A straight unit has code that fits to every later session. -/
theorem Script.Before.code {output : UnitOutput} (h : u.Before config program past σ output)
    (history : History config program past σ) (noReuse : config.reuseSlots = false)
    (simple : u.Simple σ.classes) : ∃ last pops, u.Code last pops ∧ last.Fits σ := by
  have made := (Session.Lowered.rule h.lowered).grows h.result h.clean
  have classes : u.session.classes = σ.classes := made.classes.symm.trans h.grows.classes.symm
  obtain ⟨⟨r, t⟩, hrun, e⟩ := Option.bind_eq_some_iff.1 h.lowered
  cases e
  obtain rfl : r = .ok u.list := h.result
  have clean : t.deferred = [] := List.reverse_eq_nil_iff.1 h.clean
  obtain ⟨last, s₂, frame, frames, hbody, hclose, found, resolved, rfl, good⟩ :=
    run_unitBody_ok hrun
  obtain ⟨scope, rest, freed, open', hfreed, rfl⟩ := run_closeScope_ok hclose
  have noted : (u.session.start u.name u.pool).Noted := by
    intro scope mem
    rw [List.mem_singleton.1 mem]
    exact ⟨nofun, nofun, nofun⟩
  have straight : Straight (expander (expansionBound u.session))
    (u.session.start u.name u.pool) u.body
      last :=
    straight_of_run (yields_expander _) (plain_expander _) rfl noted (classes ▸ simple) hbody clean
  obtain ⟨actions, appends⟩ := straight.appends
  -- no returns wait for the end of a straight unit
  have outermost : last.frames = [unitFrame] := appends.frames
  have found : last.frames = frame :: frames := found
  rw [outermost] at found
  cases found
  have list : last.list.extend (scopePops scope) = u.list := Except.ok.inj resolved
  refine ⟨last, scopePops scope, ⟨straight, list ▸ ActionList.toList_extend .., fun a mem => ?_,
    good⟩, ?_⟩
  · obtain ⟨v, exit, mem⟩ := List.mem_flatMap.1 mem
    have own := (appends.noted noted scope (open' ▸ List.mem_cons_self)).exits v exit
    exact IndexedVar.set_within (last.symbols_ownPlaces _ own) _ _ _ a mem
  · obtain ⟨earlier, before⟩ := h.history
    obtain ⟨final, orderly, symbols, -, deferred⟩ :=
      Session.orderly_runUnit (fun _ bodies => .stmts bodies _) h.lowered
        (before.orderly noReuse _ _)
    have same : last.symbols = final.symbols := List.reverse_injective symbols
    have data : freed.classData = last.session.classData := Session.classData_freed hfreed
    have grows : last.session.classData.Grows σ.classData := data ▸ h.grows.classData
    refine ⟨?_, grows, fun l mem => ?_, ?_⟩
    · exact appends.grows.session.classes.trans classes
    · rcases List.mem_append.1 mem with mem | mem
      · obtain ⟨sym, named, rfl⟩ := List.mem_map.1 mem
        intro stored
        exact storage_apart history noReuse (h.symbols (List.mem_reverse.2 named))
          (ClassData.core_locations _ stored) rfl
      · obtain ⟨p, static, rfl⟩ := List.mem_map.1 mem
        exact (history.sound noReuse).static_apart (grows.statics.subset static)
    · rw [same]
      exact orderly.distinct (List.reverse_eq_nil_iff.1 (deferred.symm.trans h.clean))

/-- A run of a straight unit to its end has moments, and the storage follows them. -/
theorem Script.Code.performed {last : UnitState} {pops : List Action} (code : u.Code last pops)
    (fits : last.Fits σ) (built : σ.classes.Built) (sound : σ.classData.Sound)
    (short : u.list.length < 2 ^ 63) {e e' : Engine} {actor : Int64}
    (done : e.runList u.list actor = some (.ok .completed, e')) :
    ∃ moments, u.moments e actor = some moments ∧ e'.config = e.config ∧
      σ.FollowsAll e.config e.memory moments e'.memory := by
  have done : Engine.execute u.list (Engine.fuel e.config) 0
    (Host.engine ⟨e.config, actor⟩ e.memory 0) =
      some (.ok .completed, e') := by
    rw [Engine.runList, code.check] at done
    exact done
  obtain ⟨n, ip, m', steps, runs, past, rfl⟩ := Host.runs_of_execute done
  obtain ⟨m₁, moments, told, passes, follows⟩ := code.straight.moments fits built sound short
    ⟨_, code.list.symm⟩ ⟨⟨n, runs⟩, past⟩
  -- behind the last statement the stacks of the unit are popped
  obtain ⟨m₂, popped, -, passes⟩ := forward_acts (fun a mem => (code.pops a mem).writes)
    (actsAt_of_begins code.list (List.prefix_refl _)) passes
  have quiet := sound.untouched code.pops fits.apart popped
  have length : last.list.length + pops.length = u.list.length := by
    rw [← ActionList.length_toList, ← ActionList.length_toList, code.list, List.length_append]
  obtain rfl := passes.at_end (by
    rw [length, ActionList.get?_eq_toList, ← ActionList.length_toList]
    exact List.getElem?_eq_none (Nat.le_refl _))
  have all := follows.trans (.nil (.quiet quiet))
  rw [List.append_nil] at all
  exact ⟨moments, told, rfl, all⟩

/-- The moments of all runs, one behind the other. -/
theorem Performed.moments {scripts : List Script} {limits : Engine.Config} {runs : List ScriptRun}
    {e : Engine} (codes : ∀ u ∈ scripts, ∃ last pops, u.Code last pops ∧ last.Fits σ)
    (built : σ.classes.Built) (sound : σ.classData.Sound)
    (short : ∀ u ∈ scripts, u.list.length < 2 ^ 63)
    (performed : Performed scripts (Engine.new limits) runs e) :
    ∃ moments, runs.mapM ScriptRun.moments = some moments ∧ e.config = limits ∧
      σ.FollowsAll limits .empty moments.flatten e.memory := by
  -- on the runs: what one more run does is put behind what was told so far
  induction performed with
  | idle => exact ⟨[], rfl, rfl, .nil (.quiet ⟨rfl, fun _ _ => rfl⟩)⟩
  | @run runs e u actor e' _ mem done ih =>
    obtain ⟨moments, told, rfl, follows⟩ := ih
    obtain ⟨last, pops, code, fits⟩ := codes u mem
    obtain ⟨more, told', config, follows'⟩ := code.performed fits built sound (short u mem) done
    refine ⟨moments ++ [more], ?_, config, ?_⟩
    · rw [List.mapM_append, told]
      show (List.mapM ScriptRun.moments [⟨u, e, actor⟩]).bind _ = _
      rw [List.mapM_cons, List.mapM_nil]
      show ((Script.moments u e actor).bind fun more => some [more]).bind _ = _
      rw [told']
      rfl
    · rw [List.flatten_append, List.flatten_singleton]
      exact follows.trans follows'

/-- Instances behave as a heap. Let straight units of a session whose pools do not reuse slots run
one after the other, in any order and any number of times, as whatever actors, each to its end. What
their statements do to instances are events; if every one of them is about a live instance, by a
class on its chain, then in all runs the code of the session shows the heap of the events so far. -/
theorem instances_form_heap {scripts : List Script} {limits : Engine.Config} {runs : List ScriptRun}
    {e : Engine} (scripted : Scripted config program scripts past σ)
    (noReuse : config.reuseSlots = false) (simple : ∀ u ∈ scripts, u.Simple σ.classes)
    (short : ∀ u ∈ scripts, u.list.length < 2 ^ 63)
    (performed : Performed scripts (Engine.new limits) runs e) :
    ∃ moments, runs.mapM ScriptRun.moments = some moments ∧
      (Heap.empty.legal σ.classes (moments.flatten.flatMap Moment.events) = true →
        Heap.empty.Agrees σ moments.flatten ∧
          (Heap.empty.after σ.classes (moments.flatten.flatMap Moment.events)).Shown σ
            e.context) := by
  have history := scripted.history
  have built := history.built
  have sound := history.sound noReuse
  have codes : ∀ u ∈ scripts, ∃ last pops, u.Code last pops ∧ last.Fits σ := by
    intro u mem
    obtain ⟨output, before⟩ := scripted.before u mem
    exact before.code history noReuse (simple u mem)
  obtain ⟨moments, told, rfl, follows⟩ := performed.moments codes built sound short
  refine ⟨moments, told, fun legal => ?_⟩
  -- the storage starts empty, and is followed to the end of all runs
  obtain ⟨agrees, stored⟩ := follows .empty (.empty _ _ _) legal
  exact ⟨agrees, stored.shown built sound⟩

end

/-! ## Straight units of a program -/

/-- Lowers straight units one after the other. -/
def Session.scripts? : Session → List (String × List Stmt) → Option (List Script × Session)
  | σ, [] => some ([], σ)
  | σ, (name, body) :: rest => do
    let output ← σ.lowerUnit name .global body
    let list ← output.clean?
    let (scripts, last) ← output.session.scripts? rest
    return (⟨σ, name, .global, body, list⟩ :: scripts, last)

/-- Units that were computed to lower lower. -/
theorem scripted_of_scripts? {config : LowerConfig} {program : Program} {past : List Symbol}
    {σ last : Session} {units : List (String × List Stmt)} {before scripts : List Script}
    (start : Scripted config program before past σ)
    (found : σ.scripts? units = some (scripts, last)) :
    ∃ past', Scripted config program (before ++ scripts) past' last := by
  induction units generalizing before past σ scripts with
  | nil =>
    cases found
    rw [List.append_nil]
    exact ⟨past, start⟩
  | cons unit rest ih =>
    obtain ⟨output, lowered, found⟩ := Option.bind_eq_some_iff.1 found
    obtain ⟨list, clean, found⟩ := Option.bind_eq_some_iff.1 found
    obtain ⟨⟨others, τ⟩, more, found⟩ := Option.bind_eq_some_iff.1 found
    cases found
    obtain ⟨result, clean⟩ := UnitOutput.clean?_eq_some.1 clean
    obtain ⟨past', scripted⟩ := ih (.script start lowered result clean) more
    rw [List.append_assoc, List.singleton_append] at scripted
    exact ⟨past', scripted⟩

/-- Runs straight units as one actor, each to its end. -/
def Engine.perform? : Engine → List Script → Option (List ScriptRun × Engine)
  | e, [] => some ([], e)
  | e, u :: rest =>
    match e.runList u.list Engine.defaultActor with
    | some (.ok .completed, e') => do
      let (runs, last) ← e'.perform? rest
      return (⟨u, e, Engine.defaultActor⟩ :: runs, last)
    | _ => none

/-- Runs that were computed are performed. -/
theorem performed_of_perform? {scripts order : List Script} {start e last : Engine}
    {before runs : List ScriptRun} (performed : Performed scripts start before e)
    (known : ∀ u ∈ order, u ∈ scripts) (found : e.perform? order = some (runs, last)) :
    Performed scripts start (before ++ runs) last := by
  induction order generalizing before e runs with
  | nil =>
    cases found
    rwa [List.append_nil]
  | cons u rest ih =>
    rw [Engine.perform?] at found
    split at found
    · next done =>
      obtain ⟨⟨others, e''⟩, more, found⟩ := Option.bind_eq_some_iff.1 found
      cases found
      have all := ih (.run performed (known u List.mem_cons_self) done)
        (fun u mem => known u (List.mem_cons_of_mem _ mem)) more
      rwa [List.append_assoc, List.singleton_append] at all
    · cases found

namespace Keeper

/-- The class `Derived` has a field of its base and one of its own. -/
def program : Program :=
  ⟨[.named "Base" none [.instance "a" (some (.number (.ofNat 7))), .static "kept" none] [] [],
    .named "Derived" (some "Base") [.instance "b" none] [] []], [], []⟩

def kept : Expr := .staticField "Base" "kept"

/-- An instance is made, its own field is written, and it is kept. -/
def make : List Stmt :=
  [.define "x" (some (.newObject "Derived" [])),
    .ofKind (.assign (.field (.var "x") "Derived" "b") [] .set (.number (.ofNat 5))),
    .ofKind (.assign (.staticField "Base" "kept") [] .set (.var "x"))]

/-- The instance is deleted as one of its base, another one is kept, and a field of its base is
written. -/
def replace : List Stmt :=
  [.ofKind (.delete kept "Base"),
    .define "y" (some (.newObject "Derived" [])),
    .ofKind (.assign (.field (.var "y") "Base" "a") [] .add (.number (.ofNat 1))),
    .ofKind (.assign (.staticField "Base" "kept") [] .set (.var "y"))]

def units : List (String × List Stmt) := [("make", make), ("replace", replace)]

/-- The handle of the first instance is that of the last one, whose fields have nothing of the
first. -/
def replaced (t : ClassTable) (H : Heap) : Bool :=
  (H (.ofNat 0)).any fun obj =>
    match t.findField "Derived" "a", t.findField "Derived" "b" with
    | .ok a, .ok b =>
      decide ((obj.fields a).asNumber = .ofNat 8 ∧ (obj.fields b).asNumber = .ofNat 0)
    | _, _ => false

/-- Makes one instance and replaces it twice. -/
def run? : Option (List Script × Session × List ScriptRun × Engine × List (List Moment)) :=
  match Session.new .default program with
  | .error _ => none
  | .ok σ => do
    let (scripts, last) ← σ.scripts? units
    let (runs, e) ← (Engine.new .default).perform? (scripts ++ scripts.tail)
    let moments ← runs.mapM ScriptRun.moments
    return (scripts, last, runs, e, moments)

end Keeper

open Keeper in
/-- A keeper of two instances writes, reads and deletes as the heap says. -/
theorem instances_form_heap_kept : ∃ past σ scripts runs e moments,
    Scripted .default program scripts past σ ∧
      Performed scripts (Engine.new .default) runs e ∧ runs.mapM ScriptRun.moments = some moments ∧
        Heap.empty.legal σ.classes (moments.flatten.flatMap Moment.events) = true ∧
          Heap.empty.Agrees σ moments.flatten ∧
            (Heap.empty.after σ.classes (moments.flatten.flatMap Moment.events)).Shown σ e.context ∧
              replaced σ.classes (Heap.empty.after σ.classes
                (moments.flatten.flatMap Moment.events)) =
                true := by
  have computed : run?.any (fun r =>
      (r.1.all fun u => (u.body.all fun stmt => stmt.kind.simple r.2.1.classes) &&
        decide (u.list.length < 2 ^ 63)) &&
      Heap.empty.legal r.2.1.classes (r.2.2.2.2.flatten.flatMap Moment.events) &&
      replaced r.2.1.classes
        (Heap.empty.after r.2.1.classes (r.2.2.2.2.flatten.flatMap Moment.events))) = true := by
    decide +kernel
  -- all that has to be computed is in one value, from which the hypotheses are read
  obtain ⟨⟨scripts, last, runs, e, moments⟩, found, h⟩ := (Option.any_eq_true _ _).1 computed
  simp only [Bool.and_eq_true, List.all_eq_true, decide_eq_true_iff] at h
  obtain ⟨⟨units, legal⟩, replaced⟩ := h
  unfold run? at found
  split at found
  · cases found
  · next start =>
    obtain ⟨⟨_, _⟩, lowered, found⟩ := Option.bind_eq_some_iff.1 found
    obtain ⟨⟨_, _⟩, ran, found⟩ := Option.bind_eq_some_iff.1 found
    obtain ⟨_, told, found⟩ := Option.bind_eq_some_iff.1 found
    cases found
    obtain ⟨past, scripted⟩ := scripted_of_scripts? (.start start) lowered
    have known : ∀ u ∈ scripts ++ scripts.tail, u ∈ [] ++ scripts :=
      List.forall_mem_append.2 ⟨fun _ mem => mem, fun _ => List.mem_of_mem_tail⟩
    have performed := performed_of_perform? .idle known ran
    obtain ⟨_, told', heap⟩ := instances_form_heap scripted rfl (fun u mem => (units u mem).1)
      (fun u mem => (units u mem).2) performed
    have told' : runs.mapM ScriptRun.moments = _ := told'
    rw [told] at told'
    cases told'
    obtain ⟨agrees, shown⟩ := heap legal
    exact ⟨past, last, scripts, runs, e, moments, scripted, performed, told, legal, agrees, shown,
      replaced⟩

end SkipCode
