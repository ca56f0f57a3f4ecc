import SkipCode.Compiler
import SkipCode.Proofs.Stacks

/-!
# What a compiler ships, pass after pass

A `Course` is a compiler with the programs it was given so far and what it answered. The units of
one program are described without the compiler: `Session.outputs` lowers them one after the other,
and `Program.cleanUnits` keeps those in which nothing went wrong.

* `Pass.Counted`: a pass counts a failure exactly when it reports an error;
* `Course.retained`: the image that is retained is the one of the latest pass without an error;
* `Course.answers`: what a pass ships, what it calls stale and what it retains, by what came before;
* `static_init_lost`: the names of rules are not compared with the name of the unit of static
  fields, so a rule can take its place.
-/

namespace SkipCode

open Source (ClassDecl Program Rule)

/-! ## Units of a program -/

/-- The list of a unit in which nothing went wrong. -/
def UnitOutput.clean? (output : UnitOutput) : Option ActionList :=
  match output.result, output.deferred with
  | .ok list, [] => some list
  | _, _ => none

/-- An output is clean if it has a list and nothing was put off. -/
theorem UnitOutput.clean?_eq_some {output : UnitOutput} {list : ActionList} :
    output.clean? = some list ↔ output.result = .ok list ∧ output.deferred = [] := by
  unfold UnitOutput.clean?
  split
  · next result deferred => simp [result, deferred]
  · next other => exact ⟨nofun, fun ⟨result, deferred⟩ => absurd deferred (other list result)⟩

/-- What each rule gives, in order. A name that was used before is passed over. -/
def Session.ruleOutputs : (seen : List String) → List Rule → Session →
    Option (List (String × UnitOutput))
  | _, [], _ => some []
  | seen, rule :: rest, σ =>
    if seen.contains rule.name then ruleOutputs seen rest σ
    else do
      let output ← σ.lowerUnit rule.name rule.pool rule.body
      return (rule.name, output) :: (← ruleOutputs (rule.name :: seen) rest output.session)

/-- Whether there is a unit for the initial values of static fields. -/
def Source.Program.hasStatics (program : Program) : Bool :=
  !(program.classes.flatMap ClassDecl.staticInitials).isEmpty

/-- What each unit of a program gives, in order. -/
def Session.outputs (σ : Session) (program : Program) : Option (List (String × UnitOutput)) :=
  if program.hasStatics then do
    let output ← σ.lowerStaticInit
    return (staticInitUnit, output) :: (← ruleOutputs [] program.rules output.session)
  else ruleOutputs [] program.rules σ

def cleanUnits (outputs : List (String × UnitOutput)) : List (String × ActionList) :=
  outputs.filterMap fun (name, output) => output.clean?.map (name, ·)

/-- What each unit of a program gives; there are none in a program that is refused as a whole. -/
def Source.Program.outputs (program : Program) (config : LowerConfig) :
    Option (List (String × UnitOutput)) :=
  match Session.new config program with
  | .error _ => some []
  | .ok σ => σ.outputs program

/-- The units of a program that lower without any error. -/
def Source.Program.cleanUnits (program : Program) (config : LowerConfig) :
    Option (List (String × ActionList)) :=
  (program.outputs config).map SkipCode.cleanUnits

/-- No rule has the name of the unit of static fields, if that unit is there. -/
def Source.Program.Apart (program : Program) : Prop :=
  program.hasStatics → ∀ rule ∈ program.rules, rule.name ≠ Session.staticInitUnit

/-! ## Images -/

namespace Image

/-- What is in an image after a list was put there is that list or was there. -/
theorem mem_put {name : String} {list : ActionList} {units : List (String × ActionList)}
    {unit : String × ActionList} (mem : unit ∈ put name list units) :
    unit = (name, list) ∨ unit ∈ units := by
  induction units with
  | nil => exact Or.inl (List.mem_singleton.1 mem)
  | cons first rest ih =>
    rw [put] at mem
    split at mem
    · exact (List.mem_cons.1 mem).imp_right (List.mem_cons_of_mem _)
    · rcases List.mem_cons.1 mem with rfl | mem
      · exact Or.inr List.mem_cons_self
      · exact (ih mem).imp_right (List.mem_cons_of_mem _)

/-- Every unit of an image was put there. -/
theorem mem_insertAll {image : Image} {units : List (String × ActionList)}
    {unit : String × ActionList} (mem : unit ∈ (image.insertAll units).units) :
    unit ∈ units ∨ unit ∈ image.units := by
  induction units generalizing image with
  | nil => exact Or.inr mem
  | cons first rest ih =>
    rcases ih mem with mem | mem
    · exact Or.inl (List.mem_cons_of_mem _ mem)
    · rcases mem_put mem with rfl | mem
      · exact Or.inl List.mem_cons_self
      · exact Or.inr mem

end Image

/-! ## One pass -/

/-- The clean units are the first one, if it is clean, and the others. -/
theorem cleanUnits_cons (name : String) (output : UnitOutput) (rest : List (String × UnitOutput)) :
    cleanUnits ((name, output) :: rest) =
      (output.clean?.map (name, ·)).toList ++ cleanUnits rest := by
  cases h : output.clean? <;> simp [cleanUnits, h]

/-- The names of rules that were lowered are all different, and new. -/
theorem Session.names_ruleOutputs {seen : List String} {rules : List Rule} {σ : Session}
    {outputs : List (String × UnitOutput)} (h : ruleOutputs seen rules σ = some outputs) :
    (outputs.map Prod.fst).Nodup ∧
      ∀ name ∈ outputs.map Prod.fst, name ∉ seen ∧ name ∈ rules.map Rule.name := by
  induction rules generalizing seen σ outputs with
  | nil =>
    cases h
    exact ⟨List.nodup_nil, nofun⟩
  | cons rule rest ih =>
    rw [ruleOutputs] at h
    split at h
    · obtain ⟨nodup, new⟩ := ih h
      exact ⟨nodup, fun name mem => ⟨(new name mem).1, List.mem_cons_of_mem _ (new name mem).2⟩⟩
    · next unseen =>
      obtain ⟨output, -, h⟩ := Option.bind_eq_some_iff.1 h
      obtain ⟨later, found, h⟩ := Option.bind_eq_some_iff.1 h
      cases h
      -- the later names are not this one, since it counts as seen for them
      obtain ⟨nodup, new⟩ := ih found
      refine ⟨List.nodup_cons.2 ⟨fun mem => (new _ mem).1 List.mem_cons_self, nodup⟩, ?_⟩
      rintro name (_ | ⟨_, mem⟩)
      · exact ⟨fun mem => unseen (List.contains_iff_mem.2 mem), List.mem_cons_self⟩
      · exact ⟨fun old => (new name mem).1 (List.mem_cons_of_mem _ old),
          List.mem_cons_of_mem _ (new name mem).2⟩

/-- The pass over all units of a program. -/
def Session.pass (σ : Session) (program : Program) : Option Pass :=
  (Pass.statics program ⟨σ, .empty, [], false⟩).bind (Pass.rules [] program.rules)

namespace Pass

variable {p q : Pass}

/-- A clean unit is put into the image. -/
theorem accept_clean (p : Pass) (unit : String) {output : UnitOutput} {list : ActionList}
    (clean : output.clean? = some list) :
    p.accept unit output =
      { p with session := output.session, image := p.image.insert unit list } := by
  obtain ⟨result, deferred⟩ := UnitOutput.clean?_eq_some.1 clean
  simp [accept, result, deferred]

/-- An unclean one adds an error instead. -/
theorem accept_unclean (p : Pass) (unit : String) {output : UnitOutput}
    (unclean : output.clean? = none) :
    ∃ e errors, p.accept unit output =
      { p with
        session := output.session
        diagnostics := p.diagnostics ++ (e :: errors).map fun e => ⟨unit, .error e⟩
        failed := true } := by
  cases result : output.result with
  | error e =>
    cases deferred : output.deferred with
    | nil => exact ⟨e, [], by simp [accept, result, deferred]⟩
    | cons first rest => exact ⟨first, rest ++ [e], by simp [accept, result, deferred]⟩
  | ok list =>
    cases deferred : output.deferred with
    | nil => simp [UnitOutput.clean?, result, deferred] at unclean
    | cons first rest => exact ⟨first, rest, by simp [accept, result, deferred]⟩

/-- The image grows by what is clean. -/
theorem image_accept (p : Pass) (unit : String) (output : UnitOutput) :
    (p.accept unit output).image = p.image.insertAll (output.clean?.map (unit, ·)).toList := by
  cases h : output.clean? with
  | some list =>
    rw [p.accept_clean unit h]
    rfl
  | none =>
    obtain ⟨e, errors, accepted⟩ := p.accept_unclean unit h
    rw [accepted]
    rfl

/-- The session goes on with the unit's. -/
theorem session_accept (p : Pass) (unit : String) (output : UnitOutput) :
    (p.accept unit output).session = output.session := by
  cases h : output.clean? with
  | some list => rw [p.accept_clean unit h]
  | none =>
    obtain ⟨e, errors, accepted⟩ := p.accept_unclean unit h
    rw [accepted]

/-- A pass has counted a failure when it has reported an error. -/
def Counted (p : Pass) : Prop := p.failed = p.diagnostics.any Diagnostic.isError

/-- The errors of a pass are counted. -/
theorem Counted.accept (h : p.Counted) (unit : String) (output : UnitOutput) :
    (p.accept unit output).Counted := by
  cases clean : output.clean? with
  | some list =>
    rw [p.accept_clean unit clean]
    exact h
  | none =>
    obtain ⟨e, errors, accepted⟩ := p.accept_unclean unit clean
    rw [accepted]
    simp [Counted, Diagnostic.isError]

/-- So is a rejection. -/
theorem Counted.reject (p : Pass) (unit : String) (e : LowerError) : (p.reject unit e).Counted := by
  simp [Counted, Pass.reject, Diagnostic.isError]

section

variable {P : Pass → Prop} (accept : ∀ {p : Pass} unit output, P p → P (p.accept unit output))
  (reject : ∀ {p : Pass} unit e, P p → P (p.reject unit e))

include accept reject

/-- What outputs and errors keep that are added is kept by lowering rules. -/
theorem rules_keep {seen : List String} {rules : List Rule}
    (done : Pass.rules seen rules p = some q) (h : P p) : P q := by
  induction rules generalizing seen p with
  | nil =>
    cases done
    exact h
  | cons rule rest ih =>
    rw [Pass.rules] at done
    split at done
    · exact ih done (reject _ _ h)
    · obtain ⟨output, -, done⟩ := Option.bind_eq_some_iff.1 done
      exact ih done (accept _ _ h)

/-- It is kept by a pass over a whole program. -/
theorem keep {σ : Session} {program : Program} (done : σ.pass program = some q)
    (start : P ⟨σ, .empty, [], false⟩) : P q := by
  obtain ⟨first, statics, rules⟩ := Option.bind_eq_some_iff.1 done
  refine rules_keep accept reject rules ?_
  unfold Pass.statics at statics
  split at statics
  · cases statics
    exact start
  · obtain ⟨output, -, statics⟩ := Option.bind_eq_some_iff.1 statics
    cases statics
    exact accept _ _ start

end

/-- A pass has an error for each unit that is not clean. -/
theorem counted {σ : Session} {program : Program} (done : σ.pass program = some q) : q.Counted :=
  Pass.keep (fun unit output h => Counted.accept h unit output) (fun unit e _ => .reject _ unit e)
    done rfl

/-- The image of a pass is made of the units that lowered without any error. -/
theorem image_rules {seen : List String} {rules : List Rule}
    (done : Pass.rules seen rules p = some q) :
    ∃ outputs, Session.ruleOutputs seen rules p.session = some outputs ∧
      q.image = p.image.insertAll (cleanUnits outputs) := by
  induction rules generalizing seen p with
  | nil =>
    cases done
    exact ⟨[], rfl, rfl⟩
  | cons rule rest ih =>
    rw [Pass.rules] at done
    split at done
    · next repeated =>
      obtain ⟨outputs, found, image⟩ := ih done
      exact ⟨outputs, by rwa [Session.ruleOutputs, if_pos repeated], image⟩
    · next unseen =>
      obtain ⟨output, lowered, done⟩ := Option.bind_eq_some_iff.1 done
      -- the pass goes on with the session of this rule, whether it was accepted or not
      obtain ⟨later, found, image⟩ := ih done
      rw [session_accept] at found
      refine ⟨(rule.name, output) :: later, ?_, ?_⟩
      · rw [Session.ruleOutputs, if_neg unseen, lowered, Option.bind_eq_bind,
          Option.bind_some, found]
        rfl
      · rw [image, image_accept, cleanUnits_cons, Image.insertAll, Image.insertAll,
          ← List.foldl_append]
        rfl

/-- The image of a pass holds its clean units. -/
theorem image_pass {program : Program} {σ : Session} (done : σ.pass program = some q) :
    ∃ outputs, σ.outputs program = some outputs ∧
      q.image = Image.empty.insertAll (cleanUnits outputs) := by
  obtain ⟨p, start, done⟩ := Option.bind_eq_some_iff.1 done
  obtain ⟨outputs, found, image⟩ := image_rules done
  unfold Pass.statics at start
  split at start
  · next none =>
    cases start
    exact ⟨outputs, by rwa [Session.outputs, Program.hasStatics, none, if_neg (by decide)], image⟩
  · next some =>
    obtain ⟨output, lowered, start⟩ := Option.bind_eq_some_iff.1 start
    cases start
    rw [session_accept] at found
    refine ⟨(Session.staticInitUnit, output) :: outputs, ?_, ?_⟩
    · rw [Session.outputs, Program.hasStatics, if_pos (by simpa using some), lowered,
        Option.bind_eq_bind, Option.bind_some, found]
      rfl
    · rw [image, image_accept, cleanUnits_cons, Image.insertAll, Image.insertAll,
        ← List.foldl_append]
      rfl

end Pass

/-- A program whose units all have names of their own gives an image with all that lowered. -/
theorem Session.nodup_outputs {σ : Session} {program : Program}
    {outputs : List (String × UnitOutput)} (h : σ.outputs program = some outputs)
    (apart : program.Apart) : (outputs.map Prod.fst).Nodup := by
  unfold Session.outputs at h
  split at h
  · next statics =>
    obtain ⟨output, -, h⟩ := Option.bind_eq_some_iff.1 h
    obtain ⟨later, found, h⟩ := Option.bind_eq_some_iff.1 h
    cases h
    obtain ⟨nodup, new⟩ := names_ruleOutputs found
    refine List.nodup_cons.2 ⟨fun mem => ?_, nodup⟩
    obtain ⟨rule, hr, name⟩ := List.mem_map.1 (new _ mem).2
    exact apart statics rule hr name
  · exact (names_ruleOutputs h).1

/-- They come in the order in which they were lowered. -/
theorem cleanUnits_sublist (outputs : List (String × UnitOutput)) :
    ((cleanUnits outputs).map Prod.fst).Sublist (outputs.map Prod.fst) := by
  induction outputs with
  | nil => exact .slnil
  | cons first rest ih =>
    obtain ⟨name, output⟩ := first
    rw [cleanUnits_cons]
    cases output.clean? with
    | none => exact ih.cons _
    | some list => exact ih.cons_cons _

/-! ## Compilers -/

namespace Compiler

variable {c c' : Compiler} {program : Program} {result : Compilation}

/-- A warning is no error. -/
@[simp] theorem hasErrors_warnCeiling : (c.warnCeiling result).hasErrors = result.hasErrors := by
  unfold warnCeiling
  split <;> simp [Compilation.hasErrors, Diagnostic.isError]

/-- It leaves the image alone. -/
@[simp] theorem image_warnCeiling : (c.warnCeiling result).image = result.image := by
  unfold warnCeiling
  split <;> rfl

/-- It leaves the image as fresh as it was. -/
@[simp] theorem stale_warnCeiling : (c.warnCeiling result).stale = result.stale := by
  unfold warnCeiling
  split <;> rfl

/-- It leaves the count alone. -/
@[simp] theorem count_warnCeiling : (c.warnCeiling result).count = result.count := by
  unfold warnCeiling
  split <;> rfl

/-- Falling back reports the errors it is given. -/
theorem hasErrors_fallBack (part : Image) (diagnostics : List Diagnostic) :
    (c.fallBack part diagnostics).hasErrors = diagnostics.any Diagnostic.isError := by
  unfold fallBack
  split <;> rfl

/-- It counts what it ships. -/
theorem count_fallBack (part : Image) (diagnostics : List Diagnostic) :
    (c.fallBack part diagnostics).count = (c.fallBack part diagnostics).image.count := by
  unfold fallBack
  split <;> rfl

/-- How a compilation goes: its program is refused as a whole, or a pass over it fails or does not.
-/
theorem compile_pass (h : c.compile program = some (result, c')) :
    (∃ e, Session.new c.config program = .error e ∧
        result = c.fallBack .empty [⟨wholeProgram, .error e⟩] ∧ c' = c) ∨
      ∃ σ pass, Session.new c.config program = .ok σ ∧ σ.pass program = some pass ∧
        (pass.failed = true ∧ result = c.warnCeiling (c.fallBack pass.image pass.diagnostics) ∧
          c' = c ∨
          pass.failed = false ∧
            result = c.warnCeiling ⟨pass.image, pass.diagnostics, pass.image.count, []⟩ ∧
            c' = { c with retained := some pass.image }) := by
  unfold compile at h
  split at h
  · next e refused =>
    cases h
    exact Or.inl ⟨e, refused, rfl, rfl⟩
  · next σ start =>
    obtain ⟨first, statics, h⟩ := Option.bind_eq_some_iff.1 h
    obtain ⟨pass, rules, h⟩ := Option.bind_eq_some_iff.1 h
    refine Or.inr ⟨σ, pass, start, Option.bind_eq_some_iff.2 ⟨first, statics, rules⟩, ?_⟩
    split at h
    · next failed =>
      cases h
      exact Or.inl ⟨failed, rfl, rfl⟩
    · next passed =>
      cases h
      exact Or.inr ⟨by simpa using passed, rfl, rfl⟩

/-- A new compiler makes the same pass, which does not look at what is retained. -/
theorem compile_new {σ : Session} {pass : Pass} (start : Session.new c.config program = .ok σ)
    (done : σ.pass program = some pass) (passed : pass.failed = false) :
    ∃ alone, (Compiler.new c.config).compile program = some alone ∧ alone.1.image = pass.image := by
  obtain ⟨first, statics, rules⟩ := Option.bind_eq_some_iff.1 done
  refine ⟨((Compiler.new c.config).warnCeiling ⟨pass.image, pass.diagnostics, pass.image.count, []⟩,
    ⟨c.config, some pass.image⟩), ?_, image_warnCeiling⟩
  simp [compile, Compiler.new, start, statics, rules, passed]

/-- What a compilation can be: without an error it ships and retains its own image, with one it
falls back and retains what it had. -/
theorem compile_cases (h : c.compile program = some (result, c')) :
    result.count = result.image.count ∧ ∃ image,
      (∃ units, program.cleanUnits c.config = some units ∧ image = Image.empty.insertAll units) ∧
      ((result.hasErrors = false ∧ result.image = image ∧ result.stale = [] ∧
          c' = { c with retained := some image } ∧
          ∃ alone, (Compiler.new c.config).compile program = some alone ∧ alone.1.image = image) ∨
        result.hasErrors = true ∧ c' = c ∧ ∃ diagnostics,
          result.image = (c.fallBack image diagnostics).image ∧
          result.stale = (c.fallBack image diagnostics).stale) := by
  obtain ⟨e, refused, rfl, rfl⟩ | ⟨σ, pass, start, done, outcome⟩ := compile_pass h
  · -- a program without a session lowers no unit
    have none : program.cleanUnits c'.config = some [] := by
      rw [Program.cleanUnits, Program.outputs, refused]
      rfl
    refine ⟨count_fallBack _ _, .empty, ⟨[], none, rfl⟩, Or.inr ?_⟩
    exact ⟨hasErrors_fallBack _ _, rfl, _, rfl, rfl⟩
  · have counted : pass.Counted := Pass.counted done
    obtain ⟨outputs, found, image⟩ := Pass.image_pass done
    have units : program.cleanUnits c.config = some (SkipCode.cleanUnits outputs) := by
      rw [Program.cleanUnits, Program.outputs, start]
      exact congrArg (Option.map SkipCode.cleanUnits) found
    obtain ⟨failed, rfl, rfl⟩ | ⟨passed, rfl, rfl⟩ := outcome
    · refine ⟨by simpa using count_fallBack _ _, pass.image, ⟨_, units, image⟩, Or.inr ?_⟩
      refine ⟨?_, rfl, pass.diagnostics, image_warnCeiling, stale_warnCeiling⟩
      rw [hasErrors_warnCeiling, hasErrors_fallBack]
      exact counted.symm.trans failed
    · refine ⟨by simp, pass.image, ⟨_, units, image⟩, Or.inl ?_⟩
      refine ⟨?_, image_warnCeiling, stale_warnCeiling, rfl, compile_new start done passed⟩
      rw [hasErrors_warnCeiling]
      exact counted.symm.trans passed

end Compiler

/-- A compiler after the passes it made, the latest first, each with its program and its answer. -/
inductive Course (config : LowerConfig) : List (Program × Compilation) → Compiler → Prop
  | new : Course config [] (.new config)
  | pass {past c program result c'} : Course config past c →
      c.compile program = some (result, c') → Course config ((program, result) :: past) c'

/-- The latest of some passes that reported no error. -/
def lastClean (past : List (Program × Compilation)) : Option (Program × Compilation) :=
  past.find? fun pass => !pass.2.hasErrors

/-- How a compiler that made the passes `past` and retained an image answers the next program, and
what it retains then. -/
structure Answers (config : LowerConfig) (past : List (Program × Compilation))
    (before : Option Image) (program : Program) (result : Compilation) (after : Option Image) :
    Prop where
  /-- Without an error the image is the one that the program has alone. -/
  clean : result.hasErrors = false →
    (∃ alone last, (Compiler.new config).compile program = some (alone, last) ∧
      result.image = alone.image) ∧ result.stale = [] ∧ after = some result.image
  /-- With an error nothing else is retained. -/
  kept : result.hasErrors = true → after = before
  /-- With an error the latest pass without one is shipped, whole. -/
  stale : result.hasErrors = true → ∀ earlier, lastClean past = some earlier →
    result.image = earlier.2.image ∧ result.stale = earlier.2.image.names
  /-- With an error in each pass the units that lowered are shipped. -/
  part : result.hasErrors = true → lastClean past = none → result.stale = [] ∧
    (program.Apart → program.cleanUnits config = some result.image.units)
  /-- All units that are shipped are units of one program. -/
  unmixed : ∃ source ∈ program :: past.map Prod.fst, ∃ units,
    source.cleanUnits config = some units ∧ ∀ unit ∈ result.image.units, unit ∈ units
  count : result.count = result.image.count

namespace Course

variable {config : LowerConfig} {past : List (Program × Compilation)} {c c' : Compiler}
  {program : Program} {result : Compilation}

/-- A course keeps its configuration. -/
theorem config_eq (course : Course config past c) : c.config = config := by
  induction course with
  | new => rfl
  | pass _ done ih =>
    obtain ⟨-, image, -, ⟨-, -, -, rfl, -⟩ | ⟨-, rfl, -⟩⟩ := Compiler.compile_cases done
    · exact ih
    · exact ih

/-- A compiler retains the image of its latest pass without an error. -/
theorem retained (course : Course config past c) :
    c.retained = (lastClean past).map (·.2.image) := by
  induction course with
  | new => rfl
  | pass _ done ih =>
    obtain ⟨-, image, -, ⟨noError, image_eq, -, rfl, -⟩ | ⟨error, rfl, -⟩⟩ :=
      Compiler.compile_cases done
    · rw [lastClean, List.find?_cons_of_pos (by simp [noError]), ← image_eq]
      rfl
    · rw [lastClean, List.find?_cons_of_neg (by simp [error])]
      exact ih

/-- The image of a pass without an error is made of the units of its program. -/
theorem clean_units (course : Course config past c) {pass : Program × Compilation}
    (mem : pass ∈ past) (noError : pass.2.hasErrors = false) :
    ∃ units, pass.1.cleanUnits config = some units ∧
      pass.2.image = Image.empty.insertAll units := by
  induction course with
  | new => cases mem
  | pass course done ih =>
    rcases List.mem_cons.1 mem with rfl | mem
    · obtain ⟨-, image, ⟨units, found, rfl⟩, ⟨-, image_eq, -⟩ | ⟨error, -⟩⟩ :=
        Compiler.compile_cases done
      · exact ⟨units, course.config_eq ▸ found, image_eq⟩
      · cases error.symm.trans noError
    · exact ih mem

/-- Units of distinct names are shipped as they were lowered. -/
theorem units_of_insertAll {units : List (String × ActionList)} (apart : program.Apart)
    (found : program.cleanUnits config = some units) :
    (Image.empty.insertAll units).units = units := by
  refine (Image.insertAll_units ?_).trans (List.nil_append _)
  obtain ⟨outputs, lowered, rfl⟩ := Option.map_eq_some_iff.1 found
  refine (cleanUnits_sublist outputs).nodup ?_
  unfold Program.outputs at lowered
  split at lowered
  · cases lowered
    exact List.nodup_nil
  · exact Session.nodup_outputs lowered apart

/-- All units that are shipped are units of one program that lowered without any error. -/
theorem unmixed (course : Course config past c) (done : c.compile program = some (result, c')) :
    ∃ source ∈ program :: past.map Prod.fst, ∃ units,
      source.cleanUnits config = some units ∧ ∀ unit ∈ result.image.units, unit ∈ units := by
  obtain ⟨-, image, ⟨units, found, rfl⟩, cases⟩ := Compiler.compile_cases done
  rw [course.config_eq] at found
  have own (image_eq : result.image = Image.empty.insertAll units) :
      ∃ source ∈ program :: past.map Prod.fst, ∃ units,
        source.cleanUnits config = some units ∧ ∀ unit ∈ result.image.units, unit ∈ units := by
    refine ⟨program, List.mem_cons_self, units, found, fun unit mem => ?_⟩
    rw [image_eq] at mem
    exact (Image.mem_insertAll mem).resolve_right nofun
  obtain ⟨-, image_eq, -⟩ | ⟨-, -, diagnostics, image_eq, -⟩ := cases
  · exact own image_eq
  · -- the fallback is the image of the last pass without an error, if there was one
    have before := course.retained
    cases last : lastClean past with
    | none =>
      rw [last] at before
      simp only [Compiler.fallBack, before, Option.map_none] at image_eq
      exact own image_eq
    | some earlier =>
      rw [last] at before
      simp only [Compiler.fallBack, before, Option.map_some] at image_eq
      have mem := List.mem_of_find?_eq_some last
      have noError : earlier.2.hasErrors = false := by simpa using List.find?_some last
      obtain ⟨units, found, whole⟩ := course.clean_units mem noError
      refine ⟨earlier.1, List.mem_cons_of_mem _ (List.mem_map_of_mem mem), units, found,
        fun unit mem => ?_⟩
      rw [image_eq, whole] at mem
      exact (Image.mem_insertAll mem).resolve_right nofun

/-- A pass ships its own image if it has no error, else the latest image without one, else the part
of its own that lowered; whichever it is, the other passes have no unit in it. -/
theorem answers (course : Course config past c) (done : c.compile program = some (result, c')) :
    Answers config past c.retained program result c'.retained := by
  have unmixed := course.unmixed done
  obtain ⟨count, image, ⟨units, found, rfl⟩, own | fallen⟩ := Compiler.compile_cases done
  · obtain ⟨noError, image_eq, stale, rfl, alone, fresh, same⟩ := own
    have never {P : Prop} : result.hasErrors = true → P :=
      fun error => nomatch error.symm.trans noError
    rw [course.config_eq] at fresh
    exact ⟨fun _ => ⟨⟨alone.1, alone.2, fresh, image_eq.trans same.symm⟩, stale, by rw [image_eq]⟩,
      never, never, never, unmixed, count⟩
  · obtain ⟨error, rfl, diagnostics, image_eq, stale⟩ := fallen
    rw [course.config_eq] at found
    have before := course.retained
    refine ⟨fun noError => (nomatch error.symm.trans noError), fun _ => rfl,
      fun _ earlier last => ?_,
      fun _ none => ?_, unmixed, count⟩
    · rw [last] at before
      simp only [Compiler.fallBack, before, Option.map_some] at image_eq stale
      exact ⟨image_eq, stale⟩
    · rw [none] at before
      simp only [Compiler.fallBack, before, Option.map_none] at image_eq stale
      exact ⟨stale, fun apart => by rw [image_eq, units_of_insertAll apart found, found]⟩

end Course

/-! ## Programs that fail -/

/-- A pass of which something holds that can be computed. -/
theorem Compiler.exists_pass (c : Compiler) (program : Program) (p : Compilation × Compiler → Bool)
    (h : (c.compile program).any p = true) :
    ∃ result c', c.compile program = some (result, c') ∧ p (result, c') = true := by
  cases e : c.compile program with
  | none =>
    rw [e] at h
    cases h
  | some answer =>
    rw [e] at h
    exact ⟨answer.1, answer.2, rfl, h⟩

namespace FailedPass

def good : Program :=
  ⟨[], [], [⟨"first", .global, [.define "x" (some (.number (.ofNat 1)))]⟩]⟩

/-- A program with a rule that lowers and one that reads a name nobody declared. -/
def bad : Program :=
  ⟨[], [], [⟨"second", .global, [.define "y" (some (.number (.ofNat 2)))]⟩,
    ⟨"third", .global, [.expr (.var "missing")]⟩]⟩

/-- A program with a unit for static fields, a rule of that name and a rule that fails. -/
def clash : Program :=
  ⟨[.named "C" none [.static "count" (some (.number (.ofNat 5)))] [] []], [],
    [⟨Session.staticInitUnit, .global, []⟩, ⟨"third", .global, [.expr (.var "missing")]⟩]⟩

/-- Whether a pass reports an error, the names of what it ships, and what of that is stale. -/
def summary (result : Compilation) : Bool × List String × List String :=
  (result.hasErrors, result.image.names, result.stale)

end FailedPass

open FailedPass Compiler in
/-- A program that fails is answered with its own part before there is an image without an error,
and with that image afterwards. -/
theorem answers_bad_good_bad : ∃ first c₁ second c₂ third c₃,
    (Compiler.new .default).compile bad = some (first, c₁) ∧ c₁.compile good = some (second, c₂) ∧
      c₂.compile bad = some (third, c₃) ∧ summary first = (true, ["second"], []) ∧
      summary second = (false, ["first"], []) ∧ summary third = (true, ["first"], ["first"]) ∧
      Answers .default [] none bad first c₁.retained ∧
      Answers .default [(good, second), (bad, first)] c₂.retained bad third c₃.retained := by
  obtain ⟨first, c₁, done₁, h⟩ := exists_pass (.new .default) bad
    (fun one => decide (summary one.1 = (true, ["second"], [])) &&
      (one.2.compile good).any fun two => decide (summary two.1 = (false, ["first"], [])) &&
        (two.2.compile bad).any fun three => decide
          (summary three.1 = (true, ["first"], ["first"])))
    (by decide +kernel)
  obtain ⟨sum₁, h⟩ := (Bool.and_eq_true _ _).mp h
  obtain ⟨second, c₂, done₂, h⟩ := exists_pass _ _ _ h
  obtain ⟨sum₂, h⟩ := (Bool.and_eq_true _ _).mp h
  obtain ⟨third, c₃, done₃, h⟩ := exists_pass _ _ _ h
  exact ⟨first, c₁, second, c₂, third, c₃, done₁, done₂, done₃, of_decide_eq_true sum₁,
    of_decide_eq_true sum₂, of_decide_eq_true h, Course.answers .new done₁,
    Course.answers (.pass (.pass .new done₁) done₂) done₃⟩

open FailedPass Compiler in
/-- The unit of static fields lowers without an error, but a rule of its name takes its place. So a
first pass that fails does not ship all that lowered. -/
theorem static_init_lost : ∃ result c' units,
    (Compiler.new .default).compile clash = some (result, c') ∧ result.hasErrors = true ∧
      clash.cleanUnits .default = some units ∧ ∃ unit ∈ units, unit ∉ result.image.units := by
  obtain ⟨result, c', done, h⟩ := exists_pass (.new .default) clash
    (fun one => one.1.hasErrors && one.1.image.units.all (fun unit => unit.2.length == 0) &&
      (clash.cleanUnits .default).any fun units => units.any fun unit => unit.2.length == 1)
    (by decide +kernel)
  obtain ⟨h, shown⟩ := (Bool.and_eq_true _ _).mp h
  obtain ⟨error, shipped⟩ := (Bool.and_eq_true _ _).mp h
  cases found : clash.cleanUnits .default with
  | none =>
    rw [found] at shown
    cases shown
  | some units =>
    rw [found, Option.any_some] at shown
    obtain ⟨unit, mem, one⟩ := List.any_eq_true.1 shown
    refine ⟨result, c', units, done, error, rfl, unit, mem, fun mem => ?_⟩
    -- the list that is shipped is the empty one of the rule
    have none := List.all_eq_true.1 shipped unit mem
    rw [beq_iff_eq] at one none
    omega

end SkipCode
