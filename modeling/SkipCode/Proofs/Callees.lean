import Mathlib.Data.List.Basic
import SkipCode.Proofs.Completeness

/-!
# Which declaration a call goes to

Lowering knows the bodies that are open by keys, and the key of a method joins two names to one
text. So a declaration can be taken for another one. It cannot where different declarations have
different keys (`Session.KeysApart`), as they do when the names have no `.` and no `#`
(`Session.keysApart`).

* `OpenBody.Known`: what is known of every body on a way, kept by each step (`Spot.Known.inward`);
* `Session.Begins.calls_declaration`: a call skips back into a region exactly when that region is of
  the declaration it means, with one entry for each of its stacks, and it is refused exactly when
  the body of that declaration is open;
* `refused_for_namesake`: a call that is refused because of another declaration.
-/

namespace SkipCode

open Lower
open Source (ConstructorDecl Expr MethodDecl Stmt)

/-- What is declared in a session. -/
inductive Session.Declares (σ : Session) : Declaration → Prop
  | called {d : Declaration} {callee : Callee} : d.callee? σ = some callee → σ.Declares d
  | constructor {className : String} {index : Nat} {constructor : ConstructorDecl} :
      σ.classes.constructor className index = .ok constructor →
        σ.Declares (.constructor className index)

/-- What can be called has a key of its own. -/
def Session.KeysApart (σ : Session) : Prop :=
  ∀ d e callee, d.callee? σ = some callee → σ.Declares e → d.key = e.key → d = e

/-! ## Names that keep keys apart -/

section

variable {σ : Session}

/-- A class that was found is declared under its name. -/
theorem ClassTable.find?_mem {decls : List Source.ClassDecl} {name : String} {c : Source.ClassDecl}
    (h : find? decls name = some c) : c ∈ decls ∧ c.name = name :=
  ⟨List.mem_of_find?_eq_some h, by simpa using List.find?_some h⟩

/-- Declarations have different keys where the names of functions, classes and methods have no `.`
in them, and those of methods no `#` either. -/
theorem Session.keysApart (functions : ∀ f ∈ σ.functions, '.' ∉ f.name.toList)
    (classes : ∀ c ∈ σ.classes.decls, '.' ∉ c.name.toList)
    (methods : ∀ c ∈ σ.classes.decls, ∀ m ∈ c.methods, '.' ∉ m.name.toList ∧ '#' ∉ m.name.toList) :
    σ.KeysApart := by
  -- the first dot in the key of a method or a constructor ends the name of the class
  have qualified (className rest : String) :
      (s!"{className}.{rest}" : String).toList = className.toList ++ '.' :: rest.toList := by
    simp [toString]
  have made (className : String) (index : Nat) : (s!"{className}.new#{index}" : String).toList =
      className.toList ++ '.' :: ("new#".toList ++ (toString index).toList) := by
    simp [toString]
  have named {name : String} {f : MethodDecl}
    (h : (σ.functions.find? fun f => f.name == name) = some f) :
      '.' ∉ name.toList := by
    have e : f.name = name := by simpa using List.find?_some h
    exact e ▸ functions f (List.mem_of_find?_eq_some h)
  intro d e callee called declared same
  have keys := congrArg String.toList same
  cases d with
  | constructor => cases called
  | function name =>
    obtain ⟨f, found, -⟩ := Option.map_eq_some_iff.1 called
    have plain := named found
    cases declared with
    | constructor =>
      rw [Declaration.key, Declaration.key, made] at keys
      exact absurd (keys ▸ by simp) plain
    | @called _ callee' called' =>
      cases e with
      | function => exact congrArg _ same
      | method className method =>
        rw [Declaration.key, Declaration.key, qualified] at keys
        exact absurd (keys ▸ by simp) plain
      | constructor => cases called'
  | method className method =>
    obtain ⟨m, found, -⟩ := Option.map_eq_some_iff.1 called
    obtain ⟨c, inside, known⟩ := Option.bind_eq_some_iff.1 found
    obtain ⟨member, rfl⟩ := ClassTable.find?_mem inside
    have method_eq : m.name = method := by simpa using List.find?_some known
    obtain ⟨dotless, plain⟩ := methods c member m (List.mem_of_find?_eq_some known)
    rw [method_eq] at dotless plain
    rw [Declaration.key, qualified] at keys
    cases declared with
    | constructor =>
      rw [Declaration.key, made] at keys
      obtain ⟨-, -, rest⟩ := (List.append_cons_inj_of_notMem (classes c member) dotless).1 keys
      exact absurd (rest ▸ by simp) plain
    | @called _ callee' called' =>
      cases e with
      | function name =>
        obtain ⟨f, found', -⟩ := Option.map_eq_some_iff.1 called'
        rw [Declaration.key] at keys
        exact absurd (keys ▸ by simp) (named found')
      | method className' method' =>
        rw [Declaration.key, qualified] at keys
        obtain ⟨first, -, rest⟩ :=
          (List.append_cons_inj_of_notMem (classes c member) dotless).1 keys
        rw [String.toList_inj.1 first, String.toList_inj.1 rest]
      | constructor => cases called'

end

/-! ## Regions and their declarations -/

/-- The stacks that a call inside a region pushes. -/
def Region.stacks (region : Region) : List RecursiveVar :=
  region.params ++ region.this.toList ++ [region.returnAddress]

/-- The temporaries that it puts its arguments and its receiver into. -/
def Region.temps (region : Region) :
    List IndexedVar := region.argumentTemps ++ region.thisTemp.toList

/-- The region has a stack and a temporary for each parameter, and for `this` if the body has one.
-/
structure Region.Fits (region : Region) (callee : Callee) : Prop where
  key : region.key = callee.key
  params : region.params.length = callee.decl.params.length
  this : region.this.isSome = callee.takesReceiver
  argumentTemps : region.argumentTemps.length = callee.decl.params.length
  thisTemp : region.thisTemp.isSome = callee.takesReceiver

namespace Lower

variable {into : Expander} {s t : UnitState}

/-- A step that is seen to succeed has an answer. -/
theorem ok_of_isOk {α : Type} {m : Lower α} (h : (run m s).any (fun p => p.1.isOk) = true) :
    ∃ a t, run m s = some (.ok a, t) := by
  obtain ⟨⟨r, t⟩, ran, isOk⟩ := (Option.any_eq_true _ _).1 h
  cases r with
  | error _ => cases isOk
  | ok a => exact ⟨a, t, ran⟩

/-- A mapping that succeeds has as many results as it had items. -/
theorem length_of_mapM {α β : Type} {f : α → Lower β} {l : List α} {ys : List β}
    (h : run (l.mapM f) s = some (.ok ys, t)) : ys.length = l.length := by
  induction l generalizing s ys with
  | nil =>
    cases h
    rfl
  | cons a rest ih =>
    rw [List.mapM_cons] at h
    obtain ⟨y, u, -, h₁⟩ := run_bind_ok.1 h
    obtain ⟨others, v, ran, h₂⟩ := run_bind_ok.1 h₁
    cases h₂
    rw [List.length_cons, List.length_cons, ih ran]

/-- A mapping over an option is missing only when the option was. -/
theorem isSome_of_optionMapM {α β : Type} {f : α → Lower β} {o : Option α} {r : Option β}
    (h : run (o.mapM f) s = some (.ok r, t)) : r.isSome = o.isSome := by
  cases o with
  | none =>
    cases h
    rfl
  | some a =>
    obtain ⟨b, -, rfl⟩ := (run_map_ok (f := some)).1 h
    rfl

/-- A region that is opened for a call has what the declaration of the call asks for. -/
theorem fits_openRegion {callee : Callee} {receiver : Option Element} {arguments : List Element}
    {result : IndexedVar} {region : Region} (received : receiver.isSome = callee.takesReceiver)
    (arity : arguments.length = callee.decl.params.length)
    (h : run (openRegion callee.key callee.decl.params receiver arguments result) s =
      some (.ok region, t)) :
    region.Fits callee := by
  obtain ⟨vs, u, perParam, h₁⟩ := run_bind_ok.1 h
  obtain ⟨this, v, thisStack, h₂⟩ := run_bind_ok.1 h₁
  obtain ⟨hidden, w, -, h₃⟩ := run_bind_ok.1 h₂
  obtain ⟨returnAddress, x, -, h₄⟩ := run_bind_ok.1 h₃
  obtain ⟨argumentTemps, y, temps, h₅⟩ := run_bind_ok.1 h₄
  obtain ⟨thisTemp, z, temps', h₆⟩ := run_bind_ok.1 h₅
  obtain ⟨start, _, -, h₇⟩ := run_bind_ok.1 h₆
  cases h₇
  have this_isSome := (isSome_of_optionMapM thisStack).trans received
  refine ⟨rfl, ?_, this_isSome, length_of_mapM temps,
    (isSome_of_optionMapM temps').trans this_isSome⟩
  rw [length_of_mapM perParam, List.length_zip, arity, Nat.min_self]

section

variable {className : Option String} {method : String} {object : Option Expr}
  {arguments : List Expr} {d : Declaration} {callee : Callee} {receiver : Option Element}
  {values : List Element}

/-- A call brings a receiver exactly if the callee takes one. -/
theorem CallAt.received
    (h : CallAt into className method object arguments s d callee receiver values t) :
    receiver.isSome = callee.takesReceiver := by
  obtain ⟨receivers, u, first, rfl, -⟩ := h.lowered
  have length := length_of_lowerExprs first
  unfold receiverOf at length
  cases takes : callee.takesReceiver with
  | true =>
    rw [takes, if_pos rfl] at length
    obtain ⟨x, rfl⟩ := List.length_eq_one_iff.1 length
    rfl
  | false =>
    rw [takes, if_neg Bool.false_ne_true] at length
    obtain rfl := List.eq_nil_of_length_eq_zero length
    rfl

/-- A call brings as many values as the callee has parameters. -/
theorem CallAt.length_values
    (h : CallAt into className method object arguments s d callee receiver values t) :
    values.length = callee.decl.params.length := by
  obtain ⟨receivers, u, -, -, second⟩ := h.lowered
  rw [length_of_lowerExprs second, h.arity]

/-- Once its receiver and its arguments are lowered a call is what its expansion is. -/
theorem CallAt.run_lowerExpr
    (h : CallAt into className method object arguments s d callee receiver values t) :
    run (lowerExpr into (.call className method object arguments)) s =
      run (expandCall into callee receiver values) t := by
  obtain ⟨receivers, u, first, rfl, second⟩ := h.lowered
  rw [lowerExpr_call, run_bind, h.resolved]
  dsimp only
  rw [run_bind, run_checkArity s h.arity]
  dsimp only
  rw [run_bind, first]
  dsimp only
  rw [run_bind, second]

end

end Lower

/-! ## What is known of the bodies on a way -/

/-- The body is that of something declared, and its region is made for that. -/
structure OpenBody.Known (σ : Session) (o : OpenBody) : Prop where
  declared : ∀ d, o.declaration = some d → σ.Declares d
  region : ∀ region, o.region = some region →
    ∃ d callee, o.declaration = some d ∧ d.callee? σ = some callee ∧ region.Fits callee

/-- Bodies that are expanded are known to the session. -/
theorem Lower.Expands.known {into : Expander} {e : Expr} {s t : UnitState} {o : OpenBody}
    {names : List (String × Variable)} {part : Source.Part} (h : Expands into e s o names part t) :
    o.Known s.session := by
  cases h with
  | inlined call =>
    exact ⟨fun d e => Option.some.inj e ▸ .called (call.means.callee call.resolved), nofun⟩
  | region call _ _ _ _ opened =>
    have called := call.means.callee call.resolved
    exact ⟨fun d e => Option.some.inj e ▸ .called called, fun region e => ⟨_, _, rfl, called,
      Option.some.inj e ▸ fits_openRegion call.received call.length_values opened⟩⟩
  | constructor made => exact ⟨fun d e => Option.some.inj e ▸ .constructor made.constructor, nofun⟩
  | initial => exact ⟨nofun, nofun⟩

/-- What a body is known by are the declarations alone. -/
theorem OpenBody.Known.congr {σ τ : Session} (classes : τ.classes = σ.classes)
    (functions : τ.functions = σ.functions) {o : OpenBody} (h : o.Known τ) : o.Known σ := by
  refine ⟨fun d e => ?_, fun region e => ?_⟩
  · cases h.declared d e with
    | called found => exact .called (d.callee?_congr classes functions ▸ found)
    | constructor found => exact .constructor (classes ▸ found)
  · obtain ⟨d, callee, declared, found, fits⟩ := h.region region e
    exact ⟨d, callee, declared, d.callee?_congr classes functions ▸ found, fits⟩

namespace Spot

variable {σ : Session} {p q : Spot}

/-- All bodies around the spot are known. -/
def Known (σ : Session) (p : Spot) : Prop := ∀ o ∈ p.bodies, o.Known σ

/-- Bodies that are open inside of known ones are known. -/
theorem Known.inward (h : p.Known σ) (sound : p.Sound σ) (step : p.Inward q) : q.Known σ := by
  cases step with
  | expands expands =>
    exact List.forall_mem_cons.2 ⟨expands.known.congr sound.classes sound.functions, h⟩
  | _ => exact fun o inside => h o inside

end Spot

/-- At a beginning no body is open. -/
theorem Session.Begins.bodies {σ : Session} {p : Spot} (begins : σ.Begins p) : p.bodies = [] := by
  cases begins <;> rfl

/-- Wherever lowering comes from a beginning, all open bodies are known. -/
theorem Session.Begins.known_of_way {σ : Session} {p q : Spot} (begins : σ.Begins p)
    (way : Relation.ReflTransGen Spot.Inward p q) : q.Known σ := by
  induction way with
  | refl =>
    intro o inside
    rw [begins.bodies] at inside
    cases inside
  | tail before step ih => exact ih.inward (begins.sound_of_way before) step

/-! ## Calls -/

/-- The actions that put the arguments and the receiver of a call into the temporaries of a region.
-/
def Region.writes (region : Region) (values : List Element) : List Action :=
  (region.temps.zip values).flatMap fun q => q.1.set q.2 none []

/-- The actions that push the temporaries and the number of a call, one on each stack of a region.
-/
def Region.pushes (region : Region) (number : Nat) : List Action :=
  (region.stacks.zip (region.temps.map (·.get none) ++ [.ofNat number])).flatMap fun q =>
    q.1.pushActions q.2 none

/-- There is one value for each stack and each temporary of the region. -/
theorem Region.Fits.callEntry_eq {region : Region} {callee : Callee} (fits : region.Fits callee)
    {receiver : Option Element} {values : List Element}
    (received : receiver.isSome = callee.takesReceiver)
    (arity : values.length = callee.decl.params.length) :
    callEntry region receiver values =
        region.writes (values ++ receiver.toList) ++ region.pushes region.callSites.length ∧
      (values ++ receiver.toList).length = region.temps.length ∧
      region.stacks.length = region.temps.length + 1 := by
  obtain ⟨-, params, this, argumentTemps, thisTemp⟩ := fits
  have written : region.argumentTemps.length = values.length := argumentTemps.trans arity.symm
  have stacked : region.params.length = (region.argumentTemps.map (·.get none)).length := by
    rw [List.length_map, params, argumentTemps]
  have pushed : (region.params.zip region.argumentTemps).flatMap
    (fun q => q.1.pushActions (q.2.get none) none) =
      (region.params.zip (region.argumentTemps.map (·.get none))).flatMap fun q =>
        q.1.pushActions q.2 none := by
    rw [List.zip_map_right, List.flatMap_map]
    rfl
  unfold callEntry Region.writes Region.pushes Region.stacks Region.temps
  -- a receiver has a temporary and a stack exactly when the body takes one
  cases takes : callee.takesReceiver with
  | false =>
    rw [takes] at received this thisTemp
    obtain rfl := Option.isSome_eq_false_iff.1 received |> Option.isNone_iff_eq_none.1
    rw [Option.isNone_iff_eq_none.1 (Option.isSome_eq_false_iff.1 this),
      Option.isNone_iff_eq_none.1 (Option.isSome_eq_false_iff.1 thisTemp)]
    refine ⟨?_, by simp [written], by simp [params, argumentTemps]⟩
    simp [pushed, List.zip_append stacked]
  | true =>
    rw [takes] at received this thisTemp
    obtain ⟨r, rfl⟩ := Option.isSome_iff_exists.1 received
    obtain ⟨v, hv⟩ := Option.isSome_iff_exists.1 this
    obtain ⟨w, hw⟩ := Option.isSome_iff_exists.1 thisTemp
    rw [hv, hw]
    refine ⟨?_, by simp [written], by simp [params, argumentTemps]⟩
    simp [pushed, List.zip_append written, List.zip_append stacked]

/-- Tests that agree on a list find the same position in it. -/
theorem findIdx?_congr {α : Type} {l : List α} {f g : α → Bool} (h : ∀ a ∈ l, f a = g a) :
    l.findIdx? f = l.findIdx? g := by
  induction l with
  | nil => rfl
  | cons a rest ih =>
    rw [List.findIdx?_cons, List.findIdx?_cons, h a List.mem_cons_self,
      ih fun b mem => h b (List.mem_cons_of_mem _ mem)]

namespace Spot

/-- The body of the declaration is open around the spot. -/
def IsOpen (p : Spot) (d : Declaration) : Prop := ∃ o ∈ p.bodies, o.declaration = some d

/-- The regions around the spot with what they are of, the innermost first. -/
def regions (p : Spot) : List (Option Declaration × Region) :=
  p.bodies.filterMap fun o => o.region.map fun region => (o.declaration, region)

/-- The innermost region of a declaration around the spot, with its place among the regions. -/
def region? (p : Spot) (d : Declaration) : Option (Nat × Region) :=
  (p.regions.findIdx? fun q => q.1 == some d).bind fun i => p.regions[i]?.map fun q => (i, q.2)

section

variable {σ : Session} {p : Spot} {d : Declaration} {callee : Callee} {t : UnitState}

/-- The key of what is called is the key of an open body exactly when its own body is open. -/
theorem Sound.any_frame (sound : p.Sound σ) (known : p.Known σ) (apart : σ.KeysApart)
    (called : d.callee? σ = some callee) (same : t.surroundings = p.state.surroundings) :
    (t.frames.any fun frame => frame.method == some callee.key) = true ↔ p.IsOpen d := by
  have keys : t.frames.map Frame.method = p.bodies.map OpenBody.key ++ [none] := by
    rw [← sound.bodies, ← same]
    simp [UnitState.surroundings, Function.comp_def]
  have mem : (t.frames.any fun frame => frame.method == some callee.key) = true ↔
      some callee.key ∈ t.frames.map Frame.method := by
    simp [List.any_eq_true, List.mem_map]
  rw [mem, keys, Declaration.key_eq called]
  simp only [List.mem_append, List.mem_map, List.mem_singleton, reduceCtorEq, or_false]
  constructor
  · rintro ⟨o, inside, key⟩
    obtain ⟨e, declared, key⟩ := Option.map_eq_some_iff.1 key
    obtain rfl := apart d e callee called ((known o inside).declared e declared) key.symm
    exact ⟨o, inside, declared⟩
  · rintro ⟨o, inside, declared⟩
    exact ⟨o, inside, congrArg (Option.map Declaration.key) declared⟩

/-- The region that lowering finds by the key of what is called is the innermost one of that
declaration. -/
theorem Sound.findRegion?_eq (sound : p.Sound σ) (known : p.Known σ) (apart : σ.KeysApart)
    (called : d.callee? σ = some callee) (same : t.surroundings = p.state.surroundings) :
    (∀ i region, p.region? d = some (i, region) → region.Fits callee ∧
      ∃ sites, t.regions[i]? = some { region with callSites := sites } ∧
        findRegion? t.regions callee.key = some (i, { region with callSites := sites })) ∧
    (p.region? d = none → findRegion? t.regions callee.key = none) := by
  have cleared : t.regions.map (fun region => { region with callSites := [] }) =
    p.regions.map Prod.snd := by
    have regions := (congrArg Surroundings.regions same).trans sound.regions
    refine Eq.trans regions ?_
    rw [Spot.regions, List.map_filterMap]
    exact List.filterMap_congr fun o _ => by cases o.region <;> rfl
  -- each region on the way is known with its declaration
  have members : ∀ q ∈ p.regions, ∃ e callee', q.1 = some e ∧ e.callee? σ = some callee' ∧
    q.2.Fits callee' := by
    intro q mem
    obtain ⟨o, inside, e⟩ := List.mem_filterMap.1 mem
    obtain ⟨region, here, rfl⟩ := Option.map_eq_some_iff.1 e
    exact (known o inside).region region here
  have index : t.regions.findIdx? (fun region => region.key == callee.key) =
      p.regions.findIdx? fun q => q.1 == some d := by
    have byKey : t.regions.findIdx? (fun region => region.key == callee.key) =
        p.regions.findIdx? fun q => q.2.key == callee.key := by
      have mapped := congrArg (List.findIdx? fun region => region.key == callee.key) cleared
      rw [List.findIdx?_map, List.findIdx?_map] at mapped
      exact mapped
    refine byKey.trans (findIdx?_congr fun q mem => ?_)
    obtain ⟨e, callee', declared, found, fits⟩ := members q mem
    rw [declared, fits.key, Declaration.key_eq found, Declaration.key_eq called, Bool.eq_iff_iff,
      beq_iff_eq,
      beq_iff_eq, Option.some.injEq]
    exact ⟨fun keys => (apart d e callee called (.called found) keys.symm).symm,
      fun same => same ▸ rfl⟩
  have at' (i : Nat) : t.regions[i]?.map (fun region => { region with callSites := [] }) =
      p.regions[i]?.map Prod.snd := by
    rw [← List.getElem?_map, ← List.getElem?_map, cleared]
  unfold Spot.region? findRegion?
  rw [index]
  constructor
  · intro i region found
    obtain ⟨j, first, found⟩ := Option.bind_eq_some_iff.1 found
    obtain ⟨q, here, e⟩ := Option.map_eq_some_iff.1 found
    cases e
    obtain ⟨e, callee', declared, found', fits⟩ := members q (List.mem_of_getElem? here)
    -- the predicate holds of what was found first
    have hit := List.of_findIdx?_eq_some first
    rw [here] at hit
    obtain rfl : e = d := by simpa [declared] using hit
    cases found'.symm.trans called
    have state := at' i
    rw [here, Option.map_some] at state
    obtain ⟨r, there, e⟩ := Option.map_eq_some_iff.1 state
    have whole : r = { q.2 with callSites := r.callSites } := by rw [← e]
    refine ⟨fits, r.callSites, there.trans (congrArg some whole), ?_⟩
    rw [first]
    dsimp only
    rw [there, ← whole]
    rfl
  · intro missing
    cases first : p.regions.findIdx? fun q => q.1 == some d with
    | none => rfl
    | some i =>
      rw [first, Option.bind_some, Option.map_eq_none_iff] at missing
      have state := at' i
      rw [missing, Option.map_none, Option.map_eq_none_iff] at state
      dsimp only
      rw [state]
      rfl

end

end Spot

/-- Where different declarations have different keys, a call leads to what it means. A recursive
callee is entered again where a region is open that was opened for this very declaration, and the
innermost one of those; then each stack of the region is pushed once, for every parameter, for
`this` if there is one, and for the return address. Otherwise a region is opened for it. Another
callee is refused where its own body is open, and nowhere else. In a unit that is lowered no call is
missed. -/
theorem Session.Begins.calls_declaration {σ : Session} {start p : Spot} (apart : σ.KeysApart)
    (begins : σ.Begins start) (way : Relation.ReflTransGen Spot.Inward start p)
    {className : Option String} {method : String} {object : Option Expr} {arguments : List Expr}
    {d : Declaration} {callee : Callee} {receiver : Option Element} {values : List Element}
    {t : UnitState} (here : p.part = .expr (.call className method object arguments))
    (call : CallAt (expander p.depth) className method object arguments p.state d callee receiver
      values t) :
    let into := expander p.depth
    let answer := run (lowerExpr into (.call className method object arguments)) p.state
    (∃ unit pool m, σ.Runs unit pool m ∧ ComesTo m (.new σ unit pool) p.lower p.state ∧
      (callee.decl.recursive = false → p.IsOpen d → ∃ e u,
        run m (.new σ unit pool) = some (.error e, u) ∧
          e.cause = .unsupported (.selfCall callee.key)) ∧
      ∀ code u, run m (.new σ unit pool) = some (.ok code, u) → p.Complete σ) ∧
    (callee.decl.recursive = true →
      (∀ i region, p.region? d = some (i, region) → ∃ sites u,
        t.regions[i]? = some { region with callSites := sites } ∧
        region.params.length = callee.decl.params.length ∧
          region.this.isSome = callee.takesReceiver ∧
        (values ++ receiver.toList).length = region.temps.length ∧
        region.stacks.length = region.temps.length + 1 ∧
        u.list = (t.list.extend (region.writes
          (values ++ receiver.toList) ++ region.pushes sites.length)).pushSkipTo
          region.bodyStart ∧
        answer = run (materialize (region.result.get none)) u) ∧
      (p.region? d = none →
        answer = run (expandRegion into callee.key callee.decl.params callee.decl.body receiver
        values >>= materialize) t)) ∧
    (callee.decl.recursive = false →
      (p.IsOpen d → answer = some (.error (.unsupported (.selfCall callee.key)), t)) ∧
      (¬ p.IsOpen d → answer = run (do
        let result ← temp "ret"
        expandBody into callee.key callee.decl.params callee.decl.body receiver values (some result)
        materialize (result.get none)) t)) := by
  have sound := begins.sound_of_way way
  have known := begins.known_of_way way
  have called : d.callee? σ = some callee :=
    d.callee?_congr sound.classes sound.functions ▸ call.means.callee call.resolved
  have same := call.surroundings (.expander p.depth)
  have open' := sound.any_frame known apart called same
  intro into answer
  have expanded : answer = run (expandCall into callee receiver values) t := call.run_lowerExpr
  have refused (plain : callee.decl.recursive = false) (isOpen : p.IsOpen d) :
      answer = some (.error (.unsupported (.selfCall callee.key)), t) := by
    rw [expanded, run_expandCall_plain into receiver values plain, if_pos (open'.2 isOpen)]
  refine ⟨?_, ?_, ?_⟩
  · obtain ⟨unit, pool, m, runs, comes⟩ := begins.comesTo_of_way way
    refine ⟨unit, pool, m, runs, comes, fun plain isOpen => ?_, fun code u ran => ?complete⟩
    case complete =>
      obtain ⟨a, v, through, -⟩ := comes.ends ran
      exact sound.complete ⟨a, v, through⟩
    -- the call fails, and the unit that comes to it
    have fails := refused plain isOpen
    obtain ⟨depth, bodies, names, part, state⟩ := p
    cases here
    exact comes.fails fails
  · intro recursive
    obtain ⟨found, missing⟩ := sound.findRegion?_eq known apart called same
    refine ⟨fun i region here => ?_, fun none => ?_⟩
    · obtain ⟨fits, sites, there, reached⟩ := found i region here
      -- the region has noted calls since it was opened, which are no part of what it is made for
      have fits' : Region.Fits { region with callSites := sites } callee :=
        ⟨fits.key, fits.params, fits.this, fits.argumentTemps, fits.thisTemp⟩
      obtain ⟨entry, length, more⟩ := fits'.callEntry_eq call.received call.length_values
      obtain ⟨u, ran, list⟩ : ∃ u,
        run (callRegion i { region with callSites := sites } receiver values) t =
          some (.ok (region.result.get none), u) ∧
            u.list = (t.list.extend (callEntry { region with callSites := sites } receiver
              values)).pushSkipTo
              region.bodyStart :=
        ⟨_, run_callRegion _ _ _ _ _, rfl⟩
      rw [entry] at list
      refine ⟨sites, u, there, fits.params, fits.this, length, more, list, ?_⟩
      rw [expanded, run_expandCall_recursive into receiver values recursive, reached]
      dsimp only
      rw [run_bind, ran]
    · rw [expanded, run_expandCall_recursive into receiver values recursive, missing none]
  · intro plain
    refine ⟨refused plain, fun closed => ?_⟩
    rw [expanded, run_expandCall_plain into receiver values plain,
      if_neg (fun h => closed (open'.1 h))]

namespace CallsItself

/-- A recursive function that does nothing but call itself. -/
def again : MethodDecl :=
  (MethodDecl.named "f" ["n"]
    [.ofKind (.return (some (.callFunction "f" [.var "n"])))]).markRecursive

def session : Session where
  config := .default
  global := .new .global LowerConfig.default.globalCapacity LowerConfig.default.reuseSlots
  actor := .new .actor LowerConfig.default.actorCapacity LowerConfig.default.reuseSlots
  classes := .empty
  classData := .empty
  functions := [again]

/-- The session of a function that calls itself. -/
theorem session_new : Session.new .default ⟨[], [again], []⟩ = .ok session := rfl

def start : UnitState := ((UnitState.new session "rule" .global).entered unitFrame).opened

def outer : Expr := .callFunction "f" [.number (.ofNat 3)]

/-- A call of that function with one argument that was lowered. -/
theorem callAt (into : Expander) {arguments : List Expr} {values : List Element} {s t : UnitState}
    (functions : s.session.functions = [again]) (arity : arguments.length = 1)
    (lowered : run (lowerExprs into arguments) s = some (.ok values, t)) :
    CallAt into none "f" none arguments s (.function "f") ⟨"f", again, false⟩ none values t where
  means := .function
  resolved := by
    have found : s.session.findFunction "f" = .ok again := by
      rw [Session.findFunction, functions]
      rfl
    rw [resolveCallee, run_bind, run_get]
    dsimp only
    rw [run_bind, run_lift, found]
    rfl
  arity := arity.symm
  lowered := ⟨[], s, by rw [receiverOf, if_neg Bool.false_ne_true, lowerExprs]; rfl, rfl, lowered⟩

/-- Lowering from the outer call up to the arguments of the inner one. -/
def entering : Lower Region := do
  let result ← temp "ret"
  let _ ← temp "addr"
  let s ← get
  openScope
  let region ← openRegion "f" ["n"] none [.number (.ofNat 3)] result
  pushFrame (s.activation "f" result)
  pushRegion region
  openScope
  modify fun s => { s with span := .unknown }
  let _ ← lowerExprs (expander 6) [.var "n"]
  return region

/-- Its only name belongs to it alone. -/
theorem session_keysApart : session.KeysApart :=
  Session.keysApart (by decide) nofun nofun

/-- The first call stands at a beginning. -/
theorem begins : session.Begins ⟨6 + 1, [], [], .fragment (.stmts [.expr outer]), start⟩ :=
  (show expansionBound session = 6 + 1 by decide) ▸ .rule

/-- From there lowering comes to the call inside of the body. -/
theorem way_to_inner : ∃ region names s values t,
    Relation.ReflTransGen Spot.Inward
      ⟨6 + 1, [], [], .fragment (.stmts [.expr outer]), start⟩
      ⟨6, [⟨some (.function "f"), some region⟩], names, .expr (.callFunction "f" [.var "n"]), s⟩ ∧
    CallAt (expander 6) none "f" none [.var "n"] s (.function "f") ⟨"f", again,
      false⟩ none values t := by
  obtain ⟨region, t, ran⟩ := ok_of_isOk (m := entering) (s := start) (by decide +kernel)
  obtain ⟨result, u, ret, h⟩ := run_bind_ok.1 ran
  obtain ⟨address, v, addr, h⟩ := run_bind_ok.1 h
  obtain ⟨_, _, ⟨⟩, h⟩ := run_bind_ok.1 h
  obtain ⟨_, _, ⟨⟩, h⟩ := run_bind_ok.1 h
  obtain ⟨region, w, opened, h⟩ := run_bind_ok.1 h
  obtain ⟨_, _, ⟨⟩, h⟩ := run_bind_ok.1 h
  obtain ⟨_, _, ⟨⟩, h⟩ := run_bind_ok.1 h
  obtain ⟨_, _, ⟨⟩, h⟩ := run_bind_ok.1 h
  obtain ⟨_, _, ⟨⟩, h⟩ := run_bind_ok.1 h
  obtain ⟨values, t, lowered, h⟩ := run_bind_ok.1 h
  cases h
  have three : run (lowerExprs (expander (6 + 1)) [.number (.ofNat 3)]) start =
      some (.ok [.number (.ofNat 3)], start) := by
    rw [lowerExprs, lowerExpr, lowerExprs]
    rfl
  -- the outer call opens the region, and the inner one stands in the body that is lowered there
  have expands := Expands.region (callAt (expander (6 + 1)) rfl rfl three) rfl rfl ret addr opened
  have kept : w.session.functions = [again] :=
    (congrArg Surroundings.functions (surroundings_openRegion opened)).trans
      ((congrArg Surroundings.functions (StaysPut.temp _ _ _ _ addr)).trans
        (congrArg Surroundings.functions (StaysPut.temp _ _ _ _ ret)))
  exact ⟨region, _, _, values, _, (Spot.way_to_operand start rfl).trans
    (.head (.expands expands) (Spot.way_to_operand _ rfl)), callAt _ kept rfl lowered⟩

end CallsItself

open CallsItself in
/-- The inner call of a function that calls itself goes back into its region, with an entry for its
parameter and one for the return address. -/
theorem calls_declaration_itself : ∃ start p region values t number u,
    Session.new .default ⟨[], [again], []⟩ = .ok session ∧ session.KeysApart ∧
    session.Begins start ∧ Relation.ReflTransGen Spot.Inward start p ∧
    CallAt (expander p.depth) none "f" none [.var "n"] p.state (.function "f") ⟨"f", again,
      false⟩ none values t ∧
    p.region? (.function "f") = some (0, region) ∧ region.stacks.length = 2 ∧
    u.list = (t.list.extend (region.writes values ++ region.pushes number)).pushSkipTo
      region.bodyStart ∧
    run (lowerExpr (expander p.depth) (.callFunction "f" [.var "n"])) p.state =
      run (materialize (region.result.get none)) u := by
  obtain ⟨region, names, s, values, t, way, call⟩ := way_to_inner
  obtain ⟨-, recursive, -⟩ := Session.Begins.calls_declaration session_keysApart begins way rfl call
  -- the only open region, which is that of the function
  have innermost : Spot.region? ⟨6, [⟨some (.function "f"), some region⟩], names,
      .expr (.callFunction "f" [.var "n"]), s⟩ (.function "f") = some (0, region) := by
    simp [Spot.region?, Spot.regions]
  obtain ⟨sites, u, -, params, -, temps, more, list, answer⟩ := (recursive rfl).1 0 region innermost
  rw [Option.toList_none, List.append_nil] at temps list
  refine ⟨_, _, region, values, t, sites.length, u, session_new, session_keysApart, begins, way,
    call, innermost,
    ?_, list, answer⟩
  rw [more, ← temps, call.length_values]
  rfl

namespace Namesake

def inMethod : MethodDecl :=
  { MethodDecl.named "m" [] [.ofKind (.return (some (.number (.ofNat 5))))] with isStatic := true }

/-- A function with the name that the method of the class has as a key. It calls that method. -/
def inFunction :
    MethodDecl := .named "A.m" [] [.ofKind (.return (some (.call (some "A") "m" none [])))]

def declared : Source.ClassDecl := .named "A" none [] [] [inMethod]

def session : Session where
  config := .default
  global := .new .global LowerConfig.default.globalCapacity LowerConfig.default.reuseSlots
  actor := .new .actor LowerConfig.default.actorCapacity LowerConfig.default.reuseSlots
  classes := ⟨[declared], [ClassTable.layoutOf [declared] declared]⟩
  classData := .empty
  functions := [inFunction]

/-- The session of a function and a method that share a name. -/
theorem session_new : Session.new .default ⟨[declared], [inFunction], []⟩ = .ok session := rfl

def start : UnitState := ((UnitState.new session "rule" .global).entered unitFrame).opened

/-- Lowering no arguments does nothing. -/
theorem nothing (into : Expander) (s : UnitState) :
    run (lowerExprs into []) s = some (.ok [], s) := by
  rw [lowerExprs]
  rfl

/-- The function's call is made under the name. -/
theorem callFunction (into : Expander) :
    CallAt into none "A.m" none [] start (.function "A.m") ⟨"A.m", inFunction,
      false⟩ none [] start :=
  ⟨.function, rfl, rfl, [], start, nothing into start, rfl, nothing into start⟩

/-- So is the method's. -/
theorem callMethod (into : Expander) {s : UnitState}
    (classes : s.session.classes = session.classes) :
    CallAt into (some "A") "m" none [] s (.method "A" "m") ⟨"A.m", inMethod, false⟩ none [] s := by
  have found : s.session.classes.findMethod "A" "m" = .ok ("A", inMethod) := by
    rw [classes]
    rfl
  refine ⟨.method found, ?_, rfl, [], s, nothing into s, rfl, nothing into s⟩
  have key : (Declaration.method "A" "m").key = "A.m" := by decide
  rw [resolveCallee, run_bind, run_get]
  dsimp only
  rw [run_bind, run_lift, found, ← key]
  rfl

end Namesake

open Namesake in
/-- A method is refused in the body of a function that has the same key. -/
theorem refused_for_namesake :
    ¬ ∀ (config : LowerConfig) (program : Source.Program) (σ : Session) (start p : Spot)
        (className : Option String) (method : String) (object : Option Expr) (arguments : List Expr)
        (d : Declaration) (callee : Callee) (receiver : Option Element) (values : List Element)
          (t : UnitState),
      Session.new config program = .ok σ → σ.Begins start →
        Relation.ReflTransGen Spot.Inward start p →
      p.part = .expr (.call className method object arguments) →
      CallAt (expander p.depth) className method object arguments p.state d callee receiver
        values t →
      run (lowerExpr (expander p.depth) (.call className method object arguments)) p.state =
        some (.error (.unsupported (.selfCall callee.key)), t) → p.IsOpen d := by
  intro claim
  obtain ⟨result, u, ran⟩ := ok_of_isOk (m := temp "ret") (s := Namesake.start) (by decide +kernel)
  have begins : session.Begins ⟨20 + 1, [], [], .fragment (.stmts [.expr (.callFunction "A.m" [])]),
      Namesake.start⟩ := (show expansionBound session = 20 + 1 by decide) ▸ .rule
  have outer : Relation.ReflTransGen Spot.Inward
      ⟨20 + 1, [], [], .fragment (.stmts [.expr (.callFunction "A.m" [])]), Namesake.start⟩
      ⟨20 + 1, [], [], .expr (.callFunction "A.m" []), Namesake.start⟩ := Spot.way_to_operand _ rfl
  have expands := Expands.inlined (callFunction (expander (20 + 1))) rfl rfl ran .none .nil
  have inner := outer.trans (.head (.expands expands) (Spot.way_to_operand _ rfl))
  have classes : u.session.classes = session.classes :=
    congrArg Surroundings.classes (StaysPut.temp _ _ _ _ ran)
  have call := callMethod (expander 20) (s :=
    { (u.opened.entered (u.expanded (some "A.m") (some result))).opened with span := .unknown })
      classes
  have refused := call.run_lowerExpr.trans
    ((run_expandCall_plain (expander 20) none [] rfl).trans (if_pos rfl))
  -- by the claim the method is open, but the only open body is that of the function
  obtain ⟨o, mem, here⟩ :=
    claim _ _ session _ _ _ _ _ _ _ _ _ _ _ session_new begins inner rfl call refused
  cases List.mem_singleton.1 mem
  cases here

end SkipCode
