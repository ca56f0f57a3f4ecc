import Mathlib.Data.List.Pairwise
import SkipCode.Proofs.Access
import SkipCode.Proofs.Issued
import SkipCode.Proofs.Passes

/-!
# Shipped code keeps to its slots

All units of an image were lowered in one session (`Course.shipped`), each with a history of its
own, and a unit that went past an exhaustion is not among them. What lowering tells of a unit with a
history is here told of images.

* `Course.keeps_to_stores`: shipped code mentions no slot outside the stores, so on an engine with
  the same stores it never leaves them;
* `Course.units_apart`: without reuse two units of an image share nothing but what instances are
  stored in, so no unit changes a variable of another.
-/

namespace SkipCode

open Source (Program Rule)

/-! ## Where the units of an image come from -/

/-- A unit that a program lowers when it had the symbols `past` already, in a session that came
after `σ`. -/
def LoweredAfter (config : LowerConfig) (program : Program) (past : List Symbol) (σ : Session)
    (output : UnitOutput) : Prop :=
  ∃ before τ body, History config program before τ ∧ τ.Lowered body output ∧ past ⊆ before ∧
    (config.reuseSlots = false → ∀ pool, (σ.slotPool pool).next ≤ (τ.slotPool pool).next)

section

variable {config : LowerConfig} {program : Program} {past : List Symbol} {σ : Session}
  {output : UnitOutput} {outputs : List (String × UnitOutput)}

theorem History.lowered {body : List Source.Stmt} (history : History config program past σ)
    (lowered : σ.Lowered body output) :
    History config program (output.symbols ++ past) output.session := by
  cases lowered with
  | rule h => exact history.unit h
  | statics h => exact history.statics h

/-- Without reuse a unit gets slots that are behind all that were handed out before it. -/
theorem History.behind {body : List Source.Stmt} (history : History config program past σ)
    (noReuse : config.reuseSlots = false) (lowered : σ.Lowered body output) :
    (∀ pool, (σ.slotPool pool).next ≤ (output.session.slotPool pool).next) ∧
      (output.deferred = [] → ∀ sym ∈ output.symbols, (σ.slotPool sym.pool).next ≤ sym.slot) := by
  have linear := (history.orderly noReuse "" .global).session.linear
  have start : σ.Issued (SlotPool.From fun pool => (σ.slotPool pool).next)
      (fun l => (σ.slotPool l.pool).next ≤ l.slot) σ.classData.vars :=
    ⟨fun pool => ⟨linear pool, UInt32.le_refl _⟩, fun v mem => Or.inl mem⟩
  obtain ⟨session, symbols⟩ := start.lowered (issues_from _) lowered
  exact ⟨fun pool => (session.pools pool).next, symbols⟩

theorem LoweredAfter.mono {past' : List Symbol} {τ : Session} (sub : past ⊆ past')
    (next : config.reuseSlots = false → ∀ pool, (σ.slotPool pool).next ≤ (τ.slotPool pool).next)
    (h : LoweredAfter config program past' τ output) :
    LoweredAfter config program past σ output := by
  obtain ⟨before, υ, body, history, lowered, sub', next'⟩ := h
  exact ⟨before, υ, body, history, lowered, List.Subset.trans sub sub', fun noReuse pool =>
    UInt32.le_trans (next noReuse pool) (next' noReuse pool)⟩

/-- Every unit comes after those before it. -/
def InOrder (config : LowerConfig) (program : Program) (outputs : List (String × UnitOutput)) :
    Prop :=
  outputs.Pairwise fun a b => LoweredAfter config program a.2.symbols a.2.session b.2

theorem InOrder.cons {name : String} {body : List Source.Stmt}
    (history : History config program past σ) (lowered : σ.Lowered body output)
    (later : (∀ o ∈ outputs, LoweredAfter config program
      (output.symbols ++ past) output.session o.2) ∧
      InOrder config program outputs) :
    (∀ o ∈ (name, output) :: outputs, LoweredAfter config program past σ o.2) ∧
      InOrder config program ((name, output) :: outputs) := by
  refine ⟨List.forall_mem_cons.2 ⟨?_, fun o mem => ?_⟩,
    List.pairwise_cons.2 ⟨fun o mem => ?_, later.2⟩⟩
  · exact ⟨past, σ, body, history, lowered, List.Subset.refl _, fun _ _ => UInt32.le_refl _⟩
  · exact (later.1 o mem).mono (List.subset_append_right _ _) fun noReuse =>
      (history.behind noReuse lowered).1
  · exact (later.1 o mem).mono (List.subset_append_left _ _) fun _ _ => UInt32.le_refl _

theorem History.ruleOutputs {seen : List String} {rules : List Rule}
    (history : History config program past σ)
      (h : Session.ruleOutputs seen rules σ = some outputs) :
    (∀ o ∈ outputs, LoweredAfter config program past σ o.2) ∧ InOrder config program outputs := by
  induction rules generalizing seen past σ outputs with
  | nil =>
    cases h
    exact ⟨List.forall_mem_nil _, .nil⟩
  | cons rule rest ih =>
    rw [Session.ruleOutputs] at h
    split at h
    · exact ih history h
    · obtain ⟨output, lowered, h⟩ := Option.bind_eq_some_iff.1 h
      obtain ⟨later, found, h⟩ := Option.bind_eq_some_iff.1 h
      cases h
      exact InOrder.cons history (.rule lowered) (ih (history.unit lowered) found)

/-- The units of a program have histories, one after the other. -/
theorem history_outputs (h : program.outputs config = some outputs) :
    (∀ o ∈ outputs, ∃ past σ body, History config program past σ ∧ σ.Lowered body o.2) ∧
      InOrder config program outputs := by
  have forget {σ : Session} (h : (∀ o ∈ outputs, LoweredAfter config program [] σ o.2) ∧
      InOrder config program outputs) :
      (∀ o ∈ outputs, ∃ past σ body, History config program past σ ∧ σ.Lowered body o.2) ∧
        InOrder config program outputs := by
    refine h.imp_left fun all o mem => ?_
    obtain ⟨before, σ, body, history, lowered, -⟩ := all o mem
    exact ⟨before, σ, body, history, lowered⟩
  unfold Program.outputs at h
  split at h
  · cases h
    exact ⟨List.forall_mem_nil _, .nil⟩
  · next σ start =>
    have history : History config program [] σ := .start start
    -- a program with static fields has one more unit, before those of its rules
    unfold Session.outputs at h
    split at h
    · obtain ⟨output, lowered, h⟩ := Option.bind_eq_some_iff.1 h
      obtain ⟨later, found, h⟩ := Option.bind_eq_some_iff.1 h
      cases h
      exact forget (InOrder.cons history (.statics lowered)
        ((history.statics lowered).ruleOutputs found))
    · exact forget (history.ruleOutputs h)

end

theorem mem_cleanUnits {outputs : List (String × UnitOutput)} {unit : String × ActionList} :
    unit ∈ cleanUnits outputs ↔ ∃ output, (unit.1, output) ∈ outputs ∧
      output.clean? = some unit.2 := by
  obtain ⟨name, list⟩ := unit
  simp [cleanUnits]

section

variable {config : LowerConfig} {past : List (Program × Compilation)} {c c' : Compiler}
  {program : Program} {result : Compilation}

/-- All units of an image were lowered for one program without any error. -/
theorem Course.shipped (course : Course config past c)
    (done : c.compile program = some (result, c')) :
    ∃ source ∈ program :: past.map Prod.fst, ∃ outputs, source.outputs config = some outputs ∧
      ∀ unit ∈ result.image.units, ∃ output, (unit.1, output) ∈ outputs ∧
        output.clean? = some unit.2 := by
  obtain ⟨source, mem, units, clean, all⟩ := course.unmixed done
  obtain ⟨outputs, found, rfl⟩ := Option.map_eq_some_iff.1 clean
  exact ⟨source, mem, outputs, found, fun unit mem => mem_cleanUnits.1 (all unit mem)⟩

end

/-! ## Inside the stores -/

/-- A list that was lowered without any error is fit to run. -/
theorem Session.Lowered.check {σ : Session} {body : List Source.Stmt} {output : UnitOutput}
    {list : ActionList} (lowered : σ.Lowered body output) (result : output.result = .ok list)
    (clean : output.deferred = []) : list.check = .ok () := by
  cases lowered with
  | rule h =>
    obtain ⟨c, pops, last, closed, code⟩ := unitCode_of_lowerUnit h result clean
    exact code.check
  | statics h =>
    obtain ⟨c, pops, last, closed, code⟩ := unitCode_of_lowerStaticInit h result clean
    exact code.check

theorem Location.Inside.ne_placeholder {config : LowerConfig} {l : Location}
    (inside : l.Inside config) :
    l.slot ≠ placeholderSlot := by
  intro e
  have lt := UInt32.lt_iff_toNat_lt.1 inside
  rw [e, show placeholderSlot.toNat = 2 ^ 32 - 1 from rfl] at lt
  have := (config.capacity l.pool).toNat_lt
  omega

section

variable {config : LowerConfig} {past : List (Program × Compilation)} {c c' : Compiler}
  {program : Program} {result : Compilation}

/-- A shipped unit passes its check and has all its cells inside the capacities. -/
theorem Course.unit_inside (course : Course config past c)
    (done : c.compile program = some (result, c')) {unit : String × ActionList}
    (mem : unit ∈ result.image.units) :
    unit.2.check = .ok () ∧ ∀ cell ∈ unit.2.cells, cell.location.Inside config := by
  obtain ⟨source, -, outputs, found, all⟩ := course.shipped done
  obtain ⟨output, mem, clean⟩ := all unit mem
  obtain ⟨result, deferred⟩ := UnitOutput.clean?_eq_some.1 clean
  obtain ⟨before, σ, body, history, lowered⟩ := (history_outputs found).1 _ mem
  refine ⟨lowered.check result deferred, fun cell mem => ?_⟩
  exact history.inside lowered deferred _ (lowered.mentions history.whole result cell mem)

theorem Image.mem_of_unit? {image : Image} {name : String} {list : ActionList}
    (h : image.unit? name = some list) : (name, list) ∈ image.units := by
  obtain ⟨units⟩ := image
  induction units with
  | nil => cases h
  | cons first rest ih =>
    obtain ⟨other, found⟩ := first
    rw [unit?, List.lookup_cons] at h
    split at h
    · next same =>
      cases h
      obtain rfl : name = other := eq_of_beq same
      exact List.mem_cons_self
    · exact List.mem_cons_of_mem _ (ih h)

/-- Whatever passes a compiler made, the code it ships mentions no slot outside the capacities, the
placeholder of an exhausted pool least of all. So on an engine with these capacities no unit goes
astray, as whatever actor and in whatever stores it runs, and however long. -/
theorem Course.keeps_to_stores (course : Course config past c)
    (done : c.compile program = some (result, c')) :
    (∀ unit ∈ result.image.units, ∀ cell ∈ unit.2.cells,
      cell.location.Inside config ∧ cell.slot ≠ placeholderSlot) ∧
    ∀ e : Engine, (∀ pool, e.config.capacity pool = config.capacity pool) → ∀ name actor err e',
      (e.runUnit result.image name actor = some (.error err, e') → ¬ err.Astray) ∧
      ∀ list fuel, result.image.unit? name = some list →
        Engine.execute list fuel 0 { e with actor := actor, steps := 0 } = some (.error err, e') →
        ¬ err.Astray := by
  refine ⟨fun unit shipped cell mem => ?_, fun e same name actor err e' => ?_⟩
  · have inside := (course.unit_inside done shipped).2 cell mem
    exact ⟨inside, inside.ne_placeholder⟩
  · have run {list : ActionList} (found : result.image.unit? name = some list) (fuel : Nat)
        (failed : Engine.execute list fuel 0 { e with actor := actor, steps := 0 } =
          some (.error err, e')) : ¬ err.Astray := by
      -- what was shipped passed the check, so it goes astray only outside the stores
      obtain ⟨check, inside⟩ := course.unit_inside done (Image.mem_of_unit? found)
      refine Engine.execute_within check (fun cell mem => ?_) failed
      show cell.slot < e.config.capacity cell.store.pool
      rw [same]
      exact inside cell mem
    refine ⟨fun failed => ?_, fun list fuel found => run found fuel⟩
    unfold Engine.runUnit at failed
    split at failed
    · cases failed
      exact id
    · next list found =>
      rw [Engine.runList, (course.unit_inside done (Image.mem_of_unit? found)).1] at failed
      exact run found _ failed

end

namespace Shortage

/-- Settings with a shared store of one slot. -/
def config : LowerConfig := { LowerConfig.default with globalCapacity := 1 }

/-- A program with a rule that needs one slot and a rule for which none is left. -/
def program : Program :=
  ⟨[], [], [⟨"first", .global, [.define "x" (some (.number (.ofNat 1)))]⟩,
    ⟨"second", .global, [.define "y" (some (.number (.ofNat 2)))]⟩]⟩

def engine : Engine := .new { Engine.Config.default with globalCapacity := 1 }

end Shortage

open Shortage in
/-- The rule without a slot is not shipped, and the other one runs inside the store. -/
theorem keeps_to_stores_shortage : ∃ result c',
    (Compiler.new config).compile program = some (result, c') ∧ result.hasErrors = true ∧
      result.image.names = ["first"] ∧
      (∀ unit ∈ result.image.units, ∀ cell ∈ unit.2.cells, cell.location.Inside config) ∧
      ∀ err e', engine.runUnit result.image "first" Engine.defaultActor = some (.error err, e') →
        ¬ err.Astray := by
  obtain ⟨result, c', done, h⟩ := Compiler.exists_pass (.new config) program
    (fun one => one.1.hasErrors && decide (one.1.image.names = ["first"]))
    (by decide +kernel)
  obtain ⟨errors, names⟩ := (Bool.and_eq_true _ _).mp h
  obtain ⟨cells, runs⟩ := Course.keeps_to_stores .new done
  have same : ∀ pool, engine.config.capacity pool = config.capacity pool := fun pool => by
    cases pool <;> rfl
  exact ⟨result, c', done, errors, of_decide_eq_true names,
    fun unit shipped cell mem => (cells unit shipped cell mem).1,
    fun err e' => (runs engine same _ _ err e').1⟩

/-! ## Units side by side -/

/-- Two units of one session none of which has a place of the other's variables. -/
structure UnitOutput.Apart (a b : UnitOutput) : Prop where
  left : ∀ sym ∈ a.symbols, sym.location ∉ b.places
  right : ∀ sym ∈ b.symbols, sym.location ∉ a.places

theorem UnitOutput.Apart.symm {a b : UnitOutput} (h : a.Apart b) : b.Apart a := ⟨h.right, h.left⟩

section

variable {config : LowerConfig} {program : Program}

/-- Where the symbols of a unit and what instances are stored in end, when none of its symbols is
without a slot. -/
theorem History.ends {past : List Symbol} {σ : Session} {body : List Source.Stmt}
    {output : UnitOutput} (history : History config program past σ)
    (noReuse : config.reuseSlots = false) (lowered : σ.Lowered body output)
    (clean : output.deferred = []) :
    ∀ l ∈ output.places, l.slot < (output.session.slotPool l.pool).next := by
  have orderly := (history.lowered lowered).orderly noReuse "" .global
  intro l mem
  rcases List.mem_append.1 mem with named | stored
  · obtain ⟨sym, hs, rfl⟩ := List.mem_map.1 named
    have inside := history.inside lowered clean _ mem
    exact (orderly.taken sym (List.mem_append_right _ (List.mem_append_left _ hs))).resolve_left
      inside.ne_placeholder
  · exact orderly.session.storage l stored

theorem LoweredAfter.apart {past : List Symbol} {σ : Session} {body : List Source.Stmt}
    {a b : UnitOutput} (noReuse : config.reuseSlots = false)
    (history : History config program past σ) (lowered : σ.Lowered body a)
    (later : LoweredAfter config program a.symbols a.session b) (cleanA : a.deferred = [])
    (cleanB : b.deferred = []) : a.Apart b := by
  obtain ⟨before, τ, body', historyB, loweredB, sub, next⟩ := later
  -- what the first unit knows ends where the slots of the second begin
  have behind (sym : Symbol) (hs : sym ∈ b.symbols) : sym.location ∉ a.places := fun mem => by
    have ends := UInt32.lt_iff_toNat_lt.1 (history.ends noReuse lowered cleanA _ mem)
    have between := UInt32.le_iff_toNat_le.1 (next noReuse sym.pool)
    have begins := UInt32.le_iff_toNat_le.1 ((historyB.behind noReuse loweredB).2 cleanB sym hs)
    exact Nat.lt_irrefl _ (Nat.lt_of_lt_of_le ends (Nat.le_trans between begins))
  refine ⟨fun sym hs mem => ?_, behind⟩
  rcases List.mem_append.1 mem with named | stored
  · obtain ⟨other, ho, same⟩ := List.mem_map.1 named
    exact behind other ho (same ▸ List.mem_append_left _ (List.mem_map_of_mem hs))
  · -- the storage has no slot of a symbol that was there before
    exact ((historyB.lowered loweredB).orderly noReuse "" .global).storage _ stored
      (List.mem_map_of_mem (List.mem_append_right _ (List.mem_append_right _ (sub hs))))

/-- Without reuse all units of a program that lowered without any error are apart. -/
theorem apart_of_outputs {outputs : List (String × UnitOutput)}
    (noReuse : config.reuseSlots = false) (h : program.outputs config = some outputs)
    {a b : String × UnitOutput} (ha : a ∈ outputs) (hb : b ∈ outputs) (differ : a.1 ≠ b.1)
    (cleanA : a.2.deferred = []) (cleanB : b.2.deferred = []) :
    a.2.Apart b.2 := by
  obtain ⟨histories, order⟩ := history_outputs h
  let R (a b : String × UnitOutput) : Prop := a.2.deferred = [] → b.2.deferred = [] → a.2.Apart b.2
  have symm : Std.Symm R := ⟨fun _ _ apart cleanA cleanB => (apart cleanB cleanA).symm⟩
  have all : outputs.Pairwise R := order.imp_of_mem fun {a b} ha _ later cleanA cleanB => by
    obtain ⟨past, σ, body, history, lowered⟩ := histories a ha
    exact later.apart noReuse history lowered cleanA cleanB
  exact all.forall ha hb (fun same => differ (congrArg Prod.fst same)) cleanA cleanB

end

/-- What happens to an engine while units of an image run, one after the other and each as whatever
actor; a run may be left where it is. -/
inductive Engine.Operates (image : Image) (allowed : String → Prop) : Engine → Engine → Prop
  | idle (e : Engine) : Operates image allowed e e
  | unit {e e₁ e₂ name list actor} : Operates image allowed e e₁ → allowed name →
      image.unit? name = some list → Engine.Trail list 0 { e₁ with actor := actor, steps := 0 } e₂ →
      Operates image allowed e e₂

/-- A run that comes to an end, whichever it is, is such an operation. -/
theorem Engine.Operates.run {image : Image} {allowed : String → Prop} {e e₁ e₂ : Engine}
    {name : String} {actor : Int64} {r : Except Engine.RuntimeError Engine.Outcome}
    (h : Operates image allowed e e₁) (ok : allowed name)
    (done : e₁.runUnit image name actor = some (r, e₂)) :
    Operates image allowed e e₂ := by
  unfold runUnit at done
  split at done
  · cases done
    exact h
  · next list found =>
    unfold runList at done
    split at done
    · cases done
      exact h
    · exact .unit h ok found (trail_of_execute done)

/-- A place that a program stores its instances and static fields in. -/
def Stored (outputs : List (String × UnitOutput)) (l : Location) : Prop :=
  ∃ unit ∈ outputs, l ∈ unit.2.session.classData.locations

/-- Lists that were shipped together: what they share, and what a variable has to fear of the other
units. -/
structure SideBySide (outputs : List (String × UnitOutput)) (image : Image) : Prop where
  lowered : ∀ unit ∈ image.units, ∃ output, (unit.1, output) ∈ outputs ∧ output.clean? = some unit.2
  /-- Two units mention no slot in common but those of the storage. -/
  shared : ∀ a ∈ image.units, ∀ b ∈ image.units, a.1 ≠ b.1 → ∀ x ∈ a.2.cells, ∀ y ∈ b.2.cells,
    x.location = y.location → Stored outputs x.location
  /-- No other unit changes a variable or temporary of a unit, in whoever's store. -/
  kept : ∀ unit ∈ image.units, ∀ output, (unit.1, output) ∈ outputs → output.clean? = some unit.2 →
    ∀ sym ∈ output.symbols, ∀ e e', Engine.Operates image (· ≠ unit.1) e e' →
      ∀ key : Engine.StoreKey, key.pool = sym.pool →
        e'.memory.get key sym.slot = e.memory.get key sym.slot

section

variable {config : LowerConfig} {past : List (Program × Compilation)} {c c' : Compiler}
  {program : Program} {result : Compilation}

/-- Without reuse the units of an image do not disturb each other's variables. -/
theorem Course.units_apart (course : Course config past c) (noReuse : config.reuseSlots = false)
    (done : c.compile program = some (result, c')) :
    ∃ source ∈ program :: past.map Prod.fst, ∃ outputs, source.outputs config = some outputs ∧
      SideBySide outputs result.image := by
  obtain ⟨source, mem, outputs, found, lowered⟩ := course.shipped done
  refine ⟨source, mem, outputs, found, lowered, fun a ha b hb differ x hx y hy same => ?_,
    fun unit hu output mem clean sym hs e e' operates key pool => ?_⟩
  · -- a cell that two units mention is no symbol of either, so it belongs to the storage of classes
    obtain ⟨outA, memA, cleanA⟩ := lowered a ha
    obtain ⟨outB, memB, cleanB⟩ := lowered b hb
    obtain ⟨resultA, deferredA⟩ := UnitOutput.clean?_eq_some.1 cleanA
    obtain ⟨resultB, deferredB⟩ := UnitOutput.clean?_eq_some.1 cleanB
    have apart := apart_of_outputs noReuse found memA memB differ deferredA deferredB
    obtain ⟨_, σ, body, history, loweredA⟩ := (history_outputs found).1 _ memA
    obtain ⟨_, τ, body', historyB, loweredB⟩ := (history_outputs found).1 _ memB
    have placeA := loweredA.mentions history.whole resultA x hx
    have placeB := loweredB.mentions historyB.whole resultB y hy
    -- what one of the units names the other does not mention
    rcases List.mem_append.1 placeA with named | stored
    · obtain ⟨sym, hs, place⟩ := List.mem_map.1 named
      exact absurd placeB (same ▸ place ▸ apart.left sym hs)
    · exact ⟨_, memA, stored⟩
  · -- on the runs: each one writes only what its unit mentions
    induction operates with
    | idle => rfl
    | @unit e₁ e₂ name list actor _ other known trail ih =>
      refine (trail.keeps fun cell hc place => ?_).trans ih
      -- the unit that runs is one of the shipped ones, but not this one
      obtain ⟨out, memOut, cleanOut⟩ := lowered _ (Image.mem_of_unit? known)
      obtain ⟨resultOut, deferredOut⟩ := UnitOutput.clean?_eq_some.1 cleanOut
      have deferred := (UnitOutput.clean?_eq_some.1 clean).2
      have apart := apart_of_outputs noReuse found mem memOut (Ne.symm other) deferred deferredOut
      obtain ⟨_, σ, body, history, loweredOut⟩ := (history_outputs found).1 _ memOut
      have mentioned := loweredOut.mentions history.whole resultOut cell hc
      rw [place, pool] at mentioned
      exact apart.left sym hs mentioned

end

namespace TwoRules

/-- Two rules with a variable each that write the same static field. -/
def program : Program :=
  let write (e : Source.Expr) : Source.Stmt :=
    .ofKind (.assign (.staticField "C" "count") [] .set e)
  ⟨[.named "C" none [.static "count" none] [] []], [],
    [⟨"first", .global, [.define "x" (some (.number (.ofNat 1))), write (.var "x")]⟩,
      ⟨"second", .actor, [.define "y" (some (.number (.ofNat 2))), write (.var "y")]⟩]⟩

end TwoRules

open TwoRules in
theorem units_apart_two_rules : ∃ result c',
    (Compiler.new .default).compile program = some (result, c') ∧
      result.image.names = ["first", "second"] ∧
      ∃ source ∈ [program], ∃ outputs, source.outputs .default = some outputs ∧
        SideBySide outputs result.image := by
  obtain ⟨result, c', done, names⟩ := Compiler.exists_pass (.new .default) program
    (fun one => decide (one.1.image.names = ["first", "second"])) (by decide +kernel)
  exact ⟨result, c', done, of_decide_eq_true names, Course.units_apart .new rfl done⟩

end SkipCode
