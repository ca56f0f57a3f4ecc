import SkipCode.Proofs.OtherLimits
import SkipCode.Proofs.Running

/-!
# The list of a unit does what its body does

Where a unit was lowered without reuse, its list completes for each run of its body, and leaves in
the slots of the unit and in the storage of instances what the run says (`Meaning.unit_completes`).
-/

namespace SkipCode

open Engine (Host Memory)
open Lower
open Source (Program Stmt)

/-- The plain variables that a unit declares under names of the source, in the order of their
declarations. -/
def UnitOutput.sites (output : UnitOutput) : List Symbol := output.symbols.filter (·.IsSite)

namespace Meaning

/-- What a memory says where the body of a unit begins. -/
def initial (h : Host) (output : UnitOutput) (m : Memory) : State where
  boxes
    | .declared site => (output.sites[site]?).elim .neutral fun sym => h.value m sym.location
    | .entered _ _ => .neutral
  entries := 0
  world :=
    { fields := fun i => (output.session.classData.fieldStacks[i]?).elim .neutral fun v =>
      h.value m v.location
      statics := fun owner field =>
        (output.session.classData.statics.lookup (owner ++ "." ++ field)).elim .neutral
        fun v => h.value m v.location }

/-- A memory has the values that a state says: those of the plain variables of the unit, of the
fields of all instances and of the static fields. -/
structure Shows (h : Host) (output : UnitOutput) (st : State) (m : Memory) : Prop where
  site : ∀ (k : Nat) (sym : Symbol), output.sites[k]? = some sym →
    h.value m sym.location = st.boxes (.declared k)
  field : ∀ (i : Nat) (v : IndexedVar), output.session.classData.fieldStacks[i]? = some v →
    h.value m v.location = st.world.fields i
  static : ∀ owner field v, owner ∈ output.session.classes.decls.map (·.name) →
    output.session.classData.statics.lookup (owner ++ "." ++ field) = some v →
    h.value m v.location = st.world.statics owner field

theorem shows_initial (h : Host) (output : UnitOutput) (m : Memory) :
    Shows h output (initial h output m) m := by
  refine ⟨fun k sym found => ?_, fun i v found => ?_, fun owner field v _ found => ?_⟩ <;>
    · rw [initial]
      dsimp only
      rw [found]
      rfl

/-! ## Where the body begins -/

/-- The places of the plain variables of a unit. -/
def placed (T : UnitState) : Layout := fun l =>
  (T.sites.findIdx? fun sym => sym.location = l).map fun k => .box (.declared k)

section

variable {h : Host} {S : Location → Prop} {T : UnitState} {m : Memory}

theorem of_placed {l : Location} {u : Content} (found : placed T l = some u) :
    ∃ k sym, T.sites[k]? = some sym ∧ sym.location = l ∧ u = .box (.declared k) := by
  obtain ⟨k, at', rfl⟩ := Option.map_eq_some_iff.1 found
  obtain ⟨lt, here, -⟩ := List.findIdx?_eq_some_iff_getElem.1 at'
  exact ⟨k, _, List.getElem?_eq_getElem lt, of_decide_eq_true here, rfl⟩

theorem placed_of_site (distinct : (T.symbols.map Symbol.location).Nodup) {k : Nat} {sym : Symbol}
    (found : T.sites[k]? = some sym) : placed T sym.location = some (.box (.declared k)) := by
  obtain ⟨lt, rfl⟩ := List.getElem?_eq_some_iff.1 found
  have distinct : (T.sites.map Symbol.location).Nodup := by
    rw [UnitState.sites, List.map_reverse, List.nodup_reverse]
    exact distinct.sublist (List.filter_sublist.map Symbol.location)
  have first : (T.sites.findIdx? fun sym => sym.location = T.sites[k].location) = some k := by
    refine List.findIdx?_eq_some_iff_getElem.2 ⟨lt, decide_eq_true rfl, fun j before same => ?_⟩
    have same := List.inj_on_of_nodup_map distinct (List.getElem_mem (Nat.lt_trans before lt))
      (List.getElem_mem lt)
      (of_decide_eq_true same)
    exact Nat.ne_of_lt before ((distinct.of_map _).getElem_inj_iff.1 same)
  rw [placed, first, Option.map_some]

/-- The body of a unit, where a memory is given. -/
def unitBody (h : Host) (m : Memory) : Body := ⟨.unit, [], [], [], 0, below h m [], 0, none⟩

variable {σ : Session} {unit : String} {pool : Pool} {output : UnitOutput} {env : Env}

theorem scene_start (tidy : σ.Tidy) (later : (σ.start unit pool).Grows T) :
    Scene S T (unitBody h m) [] 0 (σ.start unit pool) where
  later := later
  ready := Session.start_ready tidy unit pool
  counted := ⟨nofun, fun _ => rfl⟩
  recursive := rfl
  unit := iff_of_true rfl rfl
  site _ := rfl
  result frame frames found := by
    cases found
    rfl

theorem sees_start (distinct : (T.symbols.map Symbol.location).Nodup) :
    Sees h S T (unitBody h m) (placed T) [] (σ.start unit pool) where
  names _ _ found := nomatch found
  known l u found := by
    obtain ⟨k, sym, at', rfl, -⟩ := of_placed found
    exact .inr (List.mem_map_of_mem (List.mem_of_getElem? at'))
  sites _ k sym found := placed_of_site distinct found
  stackPlaces l mem := nomatch mem
  result v found := nomatch found

/-- No variable of the source is on a stack of the unit. -/
theorem not_stack_of_site (accounts : Accounts S T) {k : Nat} {sym : Symbol}
    (found : T.sites[k]? = some sym) :
    ¬ S sym.location := by
  obtain ⟨inside, site⟩ := List.mem_filter.1 (List.mem_reverse.1 (List.mem_of_getElem? found))
  rw [accounts.symbols sym inside, (of_decide_eq_true site).2.1]
  exact Bool.false_ne_true

theorem placed_within (accounts : Accounts S T) (Δ : List Location) : (placed T).Within S Δ := by
  intro l u found stack
  obtain ⟨k, sym, at', rfl, -⟩ := of_placed found
  exact absurd stack (not_stack_of_site accounts at')

theorem agrees_start (ground : Ground h S T) {st : State} (stored : Shows h output st m)
    (sites : output.sites = T.sites) (session : output.session = T.session) :
    Agrees h S T (unitBody h m).base 0 (placed T) [] st m := by
  have distinct := ground.accounts.distinct
  refine ⟨⟨fun l u found plain => ?_, fun l u found stack => ?_, ?_, ?_⟩,
    ⟨Based.self h m, nofun, List.nodup_nil, nofun, nofun⟩, fun l l' c found found' => ?_,
      fun l _ n found => ?_,
    placed_within ground.accounts [], fun l u found => ?_⟩
  · obtain ⟨k, sym, at', rfl, rfl⟩ := of_placed found
    exact stored.site k sym (sites ▸ at')
  · obtain ⟨k, sym, at', rfl, -⟩ := of_placed found
    exact absurd stack (not_stack_of_site ground.accounts at')
  · exact session ▸ stored.field
  · exact session ▸ stored.static
  · obtain ⟨k, sym, at', rfl, e⟩ := of_placed found
    obtain ⟨k', sym', at'', rfl, e'⟩ := of_placed found'
    cases e
    cases e'
    cases at'.symm.trans at''
    rfl
  · obtain ⟨_, _, -, -, e⟩ := of_placed found
    cases e
  · obtain ⟨k, sym, at', rfl, -⟩ := of_placed found
    exact Sees.mem_of_site (List.mem_map_of_mem (List.mem_of_getElem? at'))

/-- What is known where the body begins is shown where it ends. -/
theorem Agrees.shows {st : State} {base : Location → List Value}
    (agrees : Agrees h S T base 0 (placed T) [] st m) (accounts : Accounts S T)
    (sites : output.sites = T.sites) (session : output.session = T.session) :
    Shows h output st m where
  site _ _ found := agrees.reads.slot _ _ (placed_of_site accounts.distinct (sites ▸ found))
    (not_stack_of_site accounts (sites ▸ found))
  field := session ▸ agrees.reads.field
  static := session ▸ agrees.reads.static

end

/-! ## Runs of units -/

section

variable {config : LowerConfig} {program : Program} {past : List Symbol} {σ : Session}
  {unit : String} {pool : Pool} {body : List Stmt} {output : UnitOutput} {list : ActionList}
  {h : Host} {c : Code} {pops : List Action} {last closed : UnitState} {st' : State} {env' : Env}
  {ending : Ending} {m : Memory}

/-- What the run of a unit asks for holds after any history without reuse, in an engine that is
large enough. -/
theorem ground_of_history (history : History config program past σ)
    (noReuse : config.reuseSlots = false) (lowered : σ.lowerUnit unit pool body = some output)
    (clean : output.deferred = []) (symbols : output.symbols = closed.symbols.reverse)
    (session : output.session = closed.session)
    (pointless : ∀ d ∈ program.classes, '.' ∉ d.name.toList)
    (capacity : ∀ pool, config.capacity pool ≤ h.config.capacity pool)
    (limit : h.config.maxArrayLength ≤ 2 ^ 53) :
    Ground h output.IsStack closed := by
  obtain ⟨final, orderly, symbols', session', deferred⟩ :=
    Session.orderly_runUnit (fun _ bodies => .stmts bodies _) lowered (history.orderly noReuse _ _)
  have next := history.unit lowered
  have same : closed.symbols = final.symbols := List.reverse_injective (symbols.symm.trans symbols')
  have holds (l : Location) (mem : l ∈ output.places) : h.Holds l := by
    have inside :=
      UInt32.lt_of_lt_of_le (history.inside (.rule lowered) clean l mem) (capacity l.pool)
    obtain ⟨pool, slot⟩ := l
    cases pool <;> exact inside
  refine ⟨accounts_of_orderly orderly symbols' session' deferred clean symbols session, ?_,
    fun sym mem => holds _ ?_,
    fun l mem => holds l ?_, fun l mem => ?_, ?_, limit, fun d mem => pointless d ?_⟩
  · exact session ▸ next.whole
  · refine List.mem_append_left _ (List.mem_map_of_mem ?_)
    rw [symbols]
    exact List.mem_reverse.2 mem
  · exact List.mem_append_right _ (session ▸ mem)
  · rw [← session, session'] at mem
    rw [same]
    exact fun inside => orderly.storage l mem
      (by rw [List.map_append]; exact List.mem_append_left _ inside)
  · rw [← session, session']
    exact orderly.session.distinct
  · rwa [← session, next.akin.2.1] at mem

/-- Behind the body of a unit its code has popped what is left, whether the body came to its end or
returned. -/
theorem Ends.completes {S : Location → Prop} {T : UnitState} (ground : Ground h S T)
    (ends : Ends h S T (unitBody h m) [] (placed T) env' last c m st' ending)
    (closes : Closes last pops closed) (sound : last.Sound S) (none : closed.scopes = []) :
    ∃ m', Exec h [] (.frame (.seq c (.acts pops))) m .next m' ∧
      Agrees h S T (unitBody h m).base 0 (placed T) [] st' m' := by
  have within := placed_within ground.accounts []
  cases ends with
  | next exec le _ agrees =>
    obtain ⟨A, rfl, e⟩ := pops_of_closes (B := unitBody h m) closes sound (Nat.zero_le _)
    have empty : (unitBody h m).stackPlaces closed = [] := by
      rw [Body.stackPlaces, none]
      rfl
    rw [e, empty] at agrees
    obtain ⟨m', popped, remains⟩ := agrees.remains.pops ground
    exact ⟨m', .frame (exec.seq (.acts popped)) (.inl rfl), (remains.mono le).agrees within⟩
  | @exit _ m' _ ne exec places remains =>
    -- there is no loop to leave
    cases ending with
    | next => exact absurd rfl ne
    | leave k | again k => cases places
    | returned v =>
      cases places
      exact ⟨m', .frame (exec.seq_exit (Ending.exit_ne ne)) (.inr rfl), remains.agrees within⟩

/-- Without reuse the list of a unit completes for each run of its body, where the lengths up to the
limit on arrays are exact numbers. -/
theorem completes_at_limit (history : History config program past σ)
    (noReuse : config.reuseSlots = false) (lowered : σ.lowerUnit unit pool body = some output)
    (result : output.result = .ok list) (clean : output.deferred = [])
    (short : list.length < 2 ^ 31) (visible : Visible (Source.kindsOf body))
    (tidy : ∀ b ∈ program.bodies, SkipCode.Tidy (Source.kindsOf b))
    (pointless : ∀ d ∈ program.classes, '.' ∉ d.name.toList) {e : Engine} {actor : Int64}
    (capacity : ∀ pool, config.capacity pool ≤ e.config.capacity pool)
    (limit : e.config.maxArrayLength ≤ 2 ^ 53)
    (room : ∀ sym ∈ output.symbols, sym.stacked = true →
      ((e.started actor).host.value e.memory sym.location).items.length < e.config.maxArrayLength)
    (does : Does ⟨σ.classes, σ.functions, e.config.maxArrayLength, actor⟩
      (fun _ _ _ _ _ _ _ => False) .unit 0 []
      (.piece (.stmts body)) (initial (e.started actor).host output e.memory) ending env' st') :
    list.check = .ok () ∧ ∃ n m', Shows (e.started actor).host output st' m' ∧
      ((e.started actor).host.Allows n → ∀ fuel, n < fuel →
        Engine.execute list fuel 0 (e.started actor) =
        some (.ok .completed, (e.started actor).host.engine m' n)) := by
  obtain ⟨c, pops, last, closed, code⟩ := unitCode_of_lowerUnit lowered result clean
  have ground : Ground (e.started actor).host output.IsStack closed :=
    ground_of_history history noReuse lowered clean code.symbols code.session pointless
      capacity limit
  have sites : output.sites = closed.sites := by
    rw [UnitOutput.sites, code.symbols, List.filter_reverse]
    rfl
  have later : last.Grows closed := code.closes.grows
  have start : Scene output.IsStack closed (unitBody (e.started actor).host e.memory) [] 0
    (σ.start unit pool) :=
    scene_start (fun b mem => tidy b (history.bodies ▸ mem)) (code.lowers.steady.grows.trans later)
  have roomy : Roomy [] 0 (σ.start unit pool) := ⟨Nat.zero_lt_one, nofun⟩
  -- the body as it runs from where it is lowered
  have akin := Session.akin_runUnit (fun _ bodies => .stmts bodies _) lowered
  have same : setting (e.started actor).host closed =
    ⟨σ.classes, σ.functions, e.config.maxArrayLength, actor⟩ := by
    rw [setting, ← code.session, akin.classes, akin.functions]
    rfl
  rw [← same] at does
  have ok : (unitBody (e.started actor).host e.memory).Ok
    (e.started actor).host output.IsStack := by
    refine ⟨fun l ⟨sym, mem, place, stacked⟩ => ?_, fun _ => rfl⟩
    have := room sym mem stacked
    rw [place] at this
    exact Nat.lt_of_le_of_lt (List.length_take_le' ..) this
  have ends := does_runs (B := unitBody (e.started actor).host e.memory) ground ok nofun
    does code.lowers later visible
    start (.inr roomy) (sees_start ground.accounts.distinct)
    (agrees_start ground (shows_initial ..) sites code.session)
  have sound := (start.past ground (.inr roomy) code.lowers visible rfl later).ready.sound
  have none : closed.scopes = [] := code.closes.scopes code.lowers.steady.scopes
  obtain ⟨m', exec, agrees⟩ := ends.completes ground code.closes sound none
  -- the list as it runs
  obtain ⟨t, at', n, runs⟩ := reaches_of_exec (by omega) exec (code.lays short) .nil
  cases at'
  refine ⟨code.check, n, m', agrees.shows ground.accounts sites code.session,
    fun allowed fuel more => ?_⟩
  have past : list.get? list.length = .none := by simp [ActionList.get?, ActionList.length]
  have allowed : (e.started actor).host.Allows (0 + n) := by rwa [Nat.zero_add]
  have ran := Host.execute_of_runs runs allowed (fuel - n - 1 + 1)
  rw [Nat.zero_add, Host.execute_at_end _ _ past] at ran
  rwa [show n + (fuel - n - 1 + 1) = fuel by omega] at ran

/-- Without reuse the list of a unit completes for each run of its body, in an engine that has the
capacities the unit was lowered for and allows the steps, where no stack of the unit is full to
begin with. `longest` bounds the arrays of the run, whose lengths are exact numbers; the limit of
the engine may be higher. In the end the slots of the unit and the storage of instances have the
values that the run says. -/
theorem unit_completes (history : History config program past σ)
    (noReuse : config.reuseSlots = false) (lowered : σ.lowerUnit unit pool body = some output)
    (result : output.result = .ok list) (clean : output.deferred = [])
    (short : list.length < 2 ^ 31) (visible : Visible (Source.kindsOf body))
    (tidy : ∀ b ∈ program.bodies, SkipCode.Tidy (Source.kindsOf b))
    (pointless : ∀ d ∈ program.classes, '.' ∉ d.name.toList) {e : Engine} {actor : Int64}
    (capacity : ∀ pool, config.capacity pool ≤ e.config.capacity pool) {longest : Nat}
    (inside : longest ≤ e.config.maxArrayLength) (limit : longest ≤ 2 ^ 53)
    (room : ∀ sym ∈ output.symbols, sym.stacked = true →
      ((e.started actor).host.value e.memory sym.location).items.length < longest)
    (does : Does ⟨σ.classes, σ.functions, longest, actor⟩ (fun _ _ _ _ _ _ _ => False) .unit 0 []
      (.piece (.stmts body)) (initial (e.started actor).host output e.memory) ending env' st') :
    list.check = .ok () ∧ ∃ n m', Shows (e.started actor).host output st' m' ∧
      ((e.started actor).host.Allows n → ∀ fuel, n < fuel →
        Engine.execute list fuel 0 (e.started actor) =
        some (.ok .completed, (e.started actor).host.engine m' n)) := by
  have capacity' : ∀ pool, config.capacity pool ≤ (e.atLimit longest).config.capacity pool := by
    intro pool
    cases pool <;> exact capacity _
  obtain ⟨check, n, m', shows', runs⟩ := completes_at_limit (e := e.atLimit longest) history noReuse
    lowered result clean short visible tidy pointless capacity' limit room does
  -- what completes under the lower limit completes under that of the engine
  refine ⟨check, n, m', ⟨shows'.site, shows'.field, shows'.static⟩, fun allowed fuel more => ?_⟩
  exact Engine.execute_atLimit (runs allowed fuel more) (.inl inside)

end

namespace Counting

/-- A variable that is counted on to two. -/
def body : List Stmt :=
  [.define "x" (some (.number (.ofNat 1))),
    .ofKind (.while (.binary .lt (.var "x") (.number (.ofNat 2)))
      [.assignOp "x" .add (.number (.ofNat 1))])]

/-- An engine without a limit on steps. -/
def engine : Engine := .new { Engine.Config.default with maxSteps := none }

/-- What a run tests before each round. -/
def test : Term := .binary .lt (.box (.declared 0)) (.value (.number (.ofNat 2)))

theorem test_eq {st : State} {n : Nat} {holds : Bool}
    (here : st.boxes (.declared 0) = .number (.ofNat n))
    (less : (Binary64.ofNat n).less (.ofNat 2) = holds)
    (notLess : (Binary64.ofNat 2).lessEq (.ofNat n) = !holds) :
    test.test st = some holds := by
  have value : test.eval st false = .bool holds := by
    simp only [test, Term.eval, operate, apply, signed, here, Engine.compare, Value.asNumber, less,
      Bool.false_eq_true, if_false]
  have negation : test.eval st true = .bool (!holds) := by
    simp only [test, Term.eval, operate, Source.BinaryOp.inverse?, apply, signed, here,
      Engine.compare,
      Value.asNumber, notLess, Bool.false_eq_true, if_false]
  rw [Term.test, value, negation]
  cases holds <;> rfl

/-- The state behind the declaration. -/
def begun (st : State) : State := st.enter (.declared 0) (.number (.ofNat 1))

/-- The state behind the one round of the loop. -/
def ended (st : State) : State := (begun st).setBox (.declared 0) (.number (.ofNat 2))

theorem does (x : Setting) (calls : Calls) (st : State) : ∃ env',
    Does x calls .unit 0 [] (.piece (.stmts body)) st .next env' (ended st) := by
  have one : (begun st).boxes (.declared 0) = .number (.ofNat 1) := by simp [begun, State.enter]
  have two : (ended st).boxes (.declared 0) = .number (.ofNat 2) := by simp [ended]
  have number (env : Env) (n : Nat) (st : State) :
    Settles x calls .unit env (.expr (.number (.ofNat n))) st
      [.value (.number (.ofNat n))] st := by
    have settles := @Settles.node x calls .unit env (.number (.ofNat n)) _ _ st _ st rfl .nil
    exact settles
  have tests (st : State) : Settles x calls .unit [("x", .box (.declared 0))]
      (.expr (.binary .lt (.var "x") (.number (.ofNat 2)))) st [test] st := by
    have found : List.lookup "x" [("x", Term.box (.declared 0))] = some (.box (.declared 0)) := rfl
    have operands := Settles.cons (.var found) (.cons (number _ 2 st) .nil)
    have settles := @Settles.node x calls .unit _ (.binary .lt (.var "x") (.number (.ofNat 2))) _ _
      st _ st rfl operands
    exact settles
  have first : Does x calls .unit 0 [] (.piece (.stmt (.define "x" (some (.number (.ofNat 1))))))
    st .next
      [("x", .box (.declared 0))] (begun st) :=
    .stmt (.define (number _ 1 st) rfl fun _ => Nat.zero_le _)
  have round : Does x calls .unit 1 [("x", .box (.declared 0))]
      (.piece (.stmt (.assignOp "x" .add (.number (.ofNat 1)))))
        (begun st) .next [("x", .box (.declared 0))]
      (ended st) := by
    have sum : Engine.arithmetic .add (.ofNat 1) (.ofNat 1) = .ofNat 2 := by decide +kernel
    have value : (combined .add (.box (.declared 0)) [] (.value (.number (.ofNat 1)))).eval
      (begun st) false =
        .number (.ofNat 2) := by
      simp only [combined, Source.AssignOp.binary?, List.foldl_nil, Term.eval, operate, apply,
        signed, one,
        Value.asNumber, sum, Bool.false_eq_true, if_false]
    refine .stmt (.assign .nil .nil rfl (number _ 1 _) ?_)
    rw [value]
    rfl
  refine ⟨_, .stmts_cons first (.stmts_cons (.stmt (.while (.loop_round (tests _) ?_
    (.block (.stmts_cons round .stmts_nil)) (.inl rfl) (.block .stmts_nil)
      (.loop_over (tests _) ?_)))) .stmts_nil)⟩
  · exact test_eq one (by decide +kernel) (by decide +kernel)
  · exact test_eq two (by decide +kernel) (by decide +kernel)

end Counting

open Counting in
/-- A unit that counts to two leaves it in the slot of its variable. -/
theorem unit_completes_counting : ∃ σ output list, Session.new .default ⟨[], [], []⟩ = .ok σ ∧
    σ.lowerUnit "rule" .global body = some output ∧ output.result = .ok list ∧
      ∃ sym n m', output.sites[0]? = some sym ∧
        (∀ fuel, n < fuel → Engine.execute list fuel 0 (engine.started 1) =
          some (.ok .completed, (engine.started 1).host.engine m' n)) ∧
        (engine.started 1).host.value m' sym.location = .number (.ofNat 2) := by
  obtain ⟨σ, new, -, computed⟩ := exists_start .default ⟨[], [], []⟩ "rule" .global
    (fun σ => (σ.lowerUnit "rule" .global body).any fun output => output.deferred.isEmpty &&
      (output.result.toOption.any fun list => decide (list.length < 2 ^ 31)) &&
        !output.sites.isEmpty &&
      output.symbols.all fun sym => !sym.stacked) rfl (by decide +kernel)
  obtain ⟨output, lowered, computed⟩ := (Option.any_eq_true _ _).1 computed
  simp only [Bool.and_eq_true, List.isEmpty_iff, List.all_eq_true, Bool.not_eq_true',
    List.isEmpty_eq_false_iff] at computed
  obtain ⟨⟨⟨clean, built⟩, declared⟩, plain⟩ := computed
  obtain ⟨list, result, short⟩ := (Option.any_eq_true _ _).1 built
  cases found : output.result with
  | error err =>
    rw [found] at result
    cases result
  | ok list' =>
    rw [found] at result
    cases result
    obtain ⟨env', does⟩ := does ⟨σ.classes, σ.functions, engine.config.maxArrayLength, 1⟩
      (fun _ _ _ _ _ _ _ => False) (initial (engine.started 1).host output engine.memory)
    obtain ⟨-, n, m', shows, completes⟩ :=
      unit_completes (.start new) rfl lowered found clean (of_decide_eq_true short)
      (by decide +kernel) nofun nofun (fun pool => by cases pool <;> decide) (Nat.le_refl _)
      (by decide) (fun sym mem stacked => by simp [plain sym mem] at stacked) does
    have first : output.sites[0]? = some (output.sites.head declared) := by
      rw [← List.head?_eq_getElem?, List.head?_eq_some_head declared]
    refine ⟨σ, output, list, new, lowered, found, output.sites.head declared, n, m', first,
      completes nofun, ?_⟩
    rw [shows.site 0 _ first]
    simp [ended]

end Meaning

end SkipCode
