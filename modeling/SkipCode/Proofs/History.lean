import SkipCode.Proofs.Slots
import SkipCode.Source.Build

/-!
# Sessions, unit after unit

The units of a program are lowered one after the other in one session, and the pools and the storage
of instances go from unit to unit. A `History` is a session that a program can come to, with the
symbols of all units until then; nothing is asked of the units, which may fail in the middle or go
past exhaustions.

* `History.orderly`: without reuse every unit starts in order, whatever the units before it were;
* `storage_apart`: so the storage of instances has no slot of a variable, of whatever unit;
* `storage_shared_with_reuse`: with reuse that is not so.
-/

namespace SkipCode

open Source (Expr Program Stmt)

/-- The sessions of a program, and the symbols of the units that were lowered in them. -/
inductive History (config : LowerConfig) (program : Program) : List Symbol → Session → Prop
  | start {σ} : Session.new config program = .ok σ → History config program [] σ
  | unit {past σ name pool body output} : History config program past σ →
      σ.lowerUnit name pool body = some output →
      History config program (output.symbols ++ past) output.session
  | statics {past σ output} : History config program past σ → σ.lowerStaticInit = some output →
      History config program (output.symbols ++ past) output.session

section

variable {config : LowerConfig} {program : Program} {past : List Symbol} {σ : Session}

/-- A session before its first unit has handed out nothing. -/
theorem orderly_new (h : Session.new config program = .ok σ) (noReuse : config.reuseSlots = false)
    (unit : String) (pool : Pool) : (UnitState.new σ unit pool).Orderly [] := by
  obtain ⟨classes, -, h⟩ := except_bind_ok.1 h
  obtain ⟨_, -, h⟩ := except_bind_ok.1 h
  cases h
  have none : ClassData.empty.locations = [] := rfl
  refine ⟨⟨fun pool => ?_, fun l hl => ?_, fun l hl => ?_, List.nodup_nil⟩, nofun,
    fun _ => List.nodup_nil, nofun⟩
  · cases pool <;> exact ⟨noReuse, rfl⟩
  · rw [show (UnitState.new _ unit pool).session.classData = .empty from rfl, none] at hl
    cases hl
  · rw [show (UnitState.new _ unit pool).session.classData = .empty from rfl, none] at hl
    cases hl

/-- A unit that starts in order ends in order, whether it succeeds or not. -/
theorem Session.orderly_runUnit {unit : String} {pool : Pool} {body : Expander → Lower Unit}
    {output : UnitOutput} (composed : ∀ into : Expander, into.Composed → Lower.Composed (body into))
    (h : σ.runUnit unit pool body = some output)
      (start : (UnitState.new σ unit pool).Orderly past) :
    ∃ last : UnitState, last.Orderly past ∧ output.symbols = last.symbols.reverse ∧
      output.session = last.session ∧ output.deferred = last.deferred.reverse := by
  obtain ⟨⟨r, last⟩, hrun, e⟩ := Option.bind_eq_some_iff.1 h
  cases e
  exact ⟨last, (Lower.Composed.unitBody (composed _ (.expander _))).preserves _ _ _ hrun start, rfl,
    rfl, rfl⟩

theorem UnitState.Orderly.next {last : UnitState} {output : UnitOutput}
    (orderly : last.Orderly past) (symbols : output.symbols = last.symbols.reverse)
    (session : output.session = last.session) (unit : String) (pool : Pool) :
    (UnitState.new output.session unit pool).Orderly (output.symbols ++ past) := by
  have same (sym : Symbol) : sym ∈ output.symbols ++ past ↔ sym ∈ last.symbols ++ past := by
    simp [symbols]
  refine ⟨?_, fun sym hs => ?_, fun _ => List.nodup_nil, fun l hl mem => ?_⟩
  · rw [show (UnitState.new output.session unit pool).session = last.session from session]
    exact orderly.session
  · rw [show (UnitState.new output.session unit pool).session = last.session from session]
    exact orderly.taken sym ((same sym).1 hs)
  · obtain ⟨sym, hs, e⟩ := List.mem_map.1 mem
    rw [show (UnitState.new output.session unit pool).session = last.session from session] at hl
    exact orderly.storage l hl (List.mem_map.2 ⟨sym, (same sym).1 hs, e⟩)

/-- Without reuse every unit of a session starts in order. -/
theorem History.orderly (h : History config program past σ) (noReuse : config.reuseSlots = false)
    (unit : String) (pool : Pool) : (UnitState.new σ unit pool).Orderly past := by
  induction h generalizing unit pool with
  | start h => exact orderly_new h noReuse unit pool
  | unit _ h ih =>
    obtain ⟨last, orderly, symbols, session, -⟩ :=
      Session.orderly_runUnit (fun _ bodies => .stmts bodies _) h (ih _ _)
    exact orderly.next symbols session unit pool
  | statics _ h ih =>
    obtain ⟨last, orderly, symbols, session, -⟩ :=
      Session.orderly_runUnit (fun _ bodies => .staticInitials bodies _) h (ih _ _)
    exact orderly.next symbols session unit pool

/-- A unit leaves the declarations of its session as they are. -/
theorem Session.akin_runUnit {unit : String} {pool : Pool} {body : Expander → Lower Unit}
    {output : UnitOutput} (composed : ∀ into : Expander, into.Composed → Lower.Composed (body into))
    (h : σ.runUnit unit pool body = some output) : σ.Akin output.session := by
  obtain ⟨⟨r, last⟩, hrun, e⟩ := Option.bind_eq_some_iff.1 h
  cases e
  exact (Lower.Composed.unitBody (composed _ (.expander _))).preserves
    (P := fun s => σ.Akin s.session)
    _ _ _ hrun ⟨rfl, rfl, rfl⟩

/-- All sessions of a program have its declarations, as its first session has them. -/
theorem History.exists_akin (h : History config program past σ) :
    ∃ first, Session.new config program = .ok first ∧ first.Akin σ := by
  induction h with
  | start h => exact ⟨_, h, rfl, rfl, rfl⟩
  | unit _ h ih =>
    obtain ⟨first, start, akin⟩ := ih
    have next := Session.akin_runUnit (fun _ bodies => .stmts bodies _) h
    exact ⟨first, start, next.config.trans akin.config, next.classes.trans akin.classes,
      next.functions.trans akin.functions⟩
  | statics _ h ih =>
    obtain ⟨first, start, akin⟩ := ih
    have next := Session.akin_runUnit (fun _ bodies => .staticInitials bodies _) h
    exact ⟨first, start, next.config.trans akin.config, next.classes.trans akin.classes,
      next.functions.trans akin.functions⟩

/-- The units of a session have the declarations of its program. -/
theorem History.akin (h : History config program past σ) :
    σ.config = config ∧ σ.classes.decls = program.classes ∧ σ.functions = program.functions := by
  obtain ⟨first, start, akin⟩ := h.exists_akin
  obtain ⟨classes, built, start⟩ := except_bind_ok.1 start
  obtain ⟨_, -, start⟩ := except_bind_ok.1 start
  cases start
  exact ⟨akin.config, (congrArg ClassTable.decls akin.classes).trans (ClassTable.decls_build built),
    akin.functions⟩

theorem History.bodies (h : History config program past σ) : σ.bodies = program.bodies := by
  obtain ⟨-, classes, functions⟩ := h.akin
  rw [Session.bodies, ClassTable.bodies, classes, functions]
  rfl

/-! ## Variables and instances -/

/-- Without reuse the storage of instances has no slot that a variable of any unit was given, before
or after the storage was made. -/
theorem storage_apart (h : History config program past σ) (noReuse : config.reuseSlots = false)
    {sym : Symbol} (named : sym ∈ past) {l : Location} (stored : l ∈ σ.classData.locations) :
    sym.location ≠ l := by
  rintro rfl
  refine (h.orderly noReuse "" .global).storage _ stored ?_
  exact List.mem_map_of_mem (List.mem_append_right _ named)

end

namespace BlockBeforeStatic

def body : List Stmt :=
  [.ofKind (.block [.define "x" (some (.number (.ofNat 7)))]),
    .ofKind (.assign (.staticField "C" "count") [] .add (.number (.ofNat 1)))]

/-- A rule that writes a static field behind a block with a variable of its own. -/
def program : Program :=
  ⟨[.named "C" none [.static "count" none] [] []], [], [⟨"rule", .global, body⟩]⟩

def output? (config : LowerConfig) : Option UnitOutput :=
  match Session.new config program with
  | .error _ => none
  | .ok σ => σ.lowerUnit "rule" .global body

theorem history {config : LowerConfig} {output : UnitOutput} (h : output? config = some output) :
    History config program (output.symbols ++ []) output.session := by
  unfold output? at h
  split at h
  · cases h
  · next start => exact .unit (.start start) h

/-- A fact of the output that can be computed. -/
theorem exists_of_any (config : LowerConfig) (p : UnitOutput → Bool)
    (h : (output? config).any p = true) :
    ∃ output, output? config = some output ∧ p output = true := by
  cases e : output? config with
  | none =>
    rw [e] at h
    cases h
  | some output =>
    rw [e] at h
    exact ⟨output, rfl, h⟩

end BlockBeforeStatic

open BlockBeforeStatic in
/-- Without reuse the variable of the block and the static field have two slots. -/
theorem storage_apart_block_before_static : ∃ output, output? .default = some output ∧
    ∃ sym ∈ output.symbols ++ [], ∃ l ∈ output.session.classData.locations, sym.location ≠ l := by
  obtain ⟨output, found, h⟩ := exists_of_any .default
    (fun output => output.symbols.any fun _ =>
      output.session.classData.locations.any fun _ => true) (by decide +kernel)
  obtain ⟨sym, named, h⟩ := List.any_eq_true.1 h
  obtain ⟨l, stored, -⟩ := List.any_eq_true.1 h
  have named : sym ∈ output.symbols ++ [] := List.mem_append_left _ named
  exact ⟨output, found, sym, named, l, stored, storage_apart (history found) rfl named stored⟩

open BlockBeforeStatic in
/-- With reuse the static field gets the slot of the variable, and the block writes it when the unit
runs again. -/
theorem storage_shared_with_reuse : ∃ past σ,
    History { LowerConfig.default with reuseSlots := true } program past σ ∧
      ∃ sym ∈ past, sym.location ∈ σ.classData.locations := by
  obtain ⟨output, found, h⟩ := exists_of_any { LowerConfig.default with reuseSlots := true }
    (fun output => output.symbols.any fun sym =>
      output.session.classData.locations.contains sym.location) (by decide +kernel)
  obtain ⟨sym, named, stored⟩ := List.any_eq_true.1 h
  exact ⟨_, _, history found, sym, List.mem_append_left _ named, List.contains_iff_mem.1 stored⟩

end SkipCode
