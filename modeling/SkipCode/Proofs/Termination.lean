import Mathlib.Data.Finset.Card
import Mathlib.Data.Finset.Dedup
import Mathlib.Logic.Relation
import Mathlib.Algebra.Order.BigOperators.Group.List
import Mathlib.Algebra.Order.Ring.Nat
import SkipCode.Proofs.Answers
import SkipCode.Proofs.Coverage

/-!
# Lowering has an end

Expanding a body opens further bodies. A call opens the body of a method only where it is not open
yet, so the methods that are left get fewer (`Surroundings.room`). A `new` opens a constructor and
the initial values of the fields whatever is open. What makes an end there is the program: where no
constructor comes, by the instances that constructors and initial values make themselves, to an
instance that it makes again (`ClassTable.Makes`), those that can still be reached get fewer
(`ClassTable.rank`).

* `Session.need`: how deep bodies can be nested at a site, from both measures;
* `Expander.Ends.expander`: an expander that is as deep as a site needs has an answer there;
* `Session.lowering_ends`: then every unit has one, since the depth at which lowering gives up is
  more than any unit needs.
-/

namespace SkipCode

open Lower
open Source (Branch ConstructorDecl Expr Place Stmt StmtKind)

/-! ## What constructors make -/

/-- The instances that an expression makes itself, as class and constructor. -/
def Source.Expr.instances (e : Expr) : List (String × Nat) :=
  e.parts.filterMap fun
    | .new className n _ => some (className, n)
    | _ => none

namespace ClassTable

/-- The expressions that a `new` expands: those in the body of the constructor and the initial
values of the fields. -/
inductive Expands (t : ClassTable) (className : String) (index : Nat) : Expr → Prop
  | body {constructor : ConstructorDecl} {k : StmtKind} {e : Expr} :
      t.constructor className index = .ok constructor → k ∈ Source.kindsOf constructor.body →
        e ∈ k.exprs →
      Expands t className index e
  | initial {fields : List (Nat × Option Expr)} {stack : Nat} {e : Expr} :
      Lower.fieldInitials t className = .ok fields → (stack, some e) ∈ fields →
        Expands t className index e

/-- Making an instance makes another one, without a call between them. -/
def Makes (t : ClassTable) (a b : String × Nat) : Prop := ∃ e, t.Expands a.1 a.2 e ∧ b ∈ e.instances

/-- The constructors of a program, with the empty one of a class that declares none. -/
def makers (t : ClassTable) : Finset (String × Nat) :=
  (t.decls.flatMap fun d => (List.range (d.constructors.length + 1)).map fun i =>
    (d.name, i)).toFinset

/-- A constructor that is found is one of the makers. -/
theorem mem_makers {t : ClassTable} {className : String} {index : Nat}
    {constructor : ConstructorDecl} (found : t.constructor className index = .ok constructor) :
    (className, index) ∈ t.makers := by
  obtain ⟨d, known, chosen⟩ := except_bind_ok.1 found
  have declared : d ∈ t.decls ∧ d.name = className := by
    unfold ClassTable.decl at known
    split at known
    · next d' named =>
      cases known
      exact ⟨List.mem_of_find?_eq_some named, by simpa using List.find?_some named⟩
    · cases known
  have inside : index < d.constructors.length + 1 := by
    split at chosen
    · next empty =>
      simp only [Bool.and_eq_true, beq_iff_eq] at empty
      omega
    · split at chosen
      · next at' =>
        have := (List.getElem?_eq_some_iff.1 at').1
        omega
      · cases chosen
  refine List.mem_toFinset.2 (List.mem_flatMap.2 ⟨d, declared.1, List.mem_map.2 ⟨index, ?_, ?_⟩⟩)
  · exact List.mem_range.2 inside
  · rw [declared.2]

/-- There are not more makers than constructors, classes and initial values. -/
theorem card_makers_le (t : ClassTable) :
    t.makers.card ≤ (t.decls.map fun d => d.constructors.length + 1 + d.fields.length).sum := by
  refine (List.toFinset_card_le _).trans ?_
  rw [List.length_flatMap]
  exact List.sum_le_sum fun d _ => by simp

open Classical in
/-- How many constructors can be come to from one. -/
noncomputable def rank (t : ClassTable) (a : String × Nat) : Nat :=
  (t.makers.filter fun b => Relation.TransGen t.Makes a b).card

/-- The rank of a maker is at most their number. -/
theorem rank_le (t : ClassTable) (a : String × Nat) : t.rank a ≤ t.makers.card := by
  classical
  exact Finset.card_filter_le _ _

/-- Where nothing comes back to itself, fewer constructors can be come to from what a constructor
makes. -/
theorem rank_lt {t : ClassTable} (acyclic : ∀ a, ¬ Relation.TransGen t.Makes a a)
    {a b : String × Nat} (makes : t.Makes a b) (known : b ∈ t.makers) : t.rank b < t.rank a := by
  classical
  refine Finset.card_lt_card ((Finset.ssubset_iff_of_subset fun c mem => ?_).2 ⟨b, ?_,
    fun mem => ?_⟩)
  · obtain ⟨made, reached⟩ := Finset.mem_filter.1 mem
    exact Finset.mem_filter.2 ⟨made, .head makes reached⟩
  · exact Finset.mem_filter.2 ⟨known, .single makes⟩
  · exact acyclic b (Finset.mem_filter.1 mem).2

/-- An expression makes instances of lower rank only. -/
def Below (t : ClassTable) (r : Nat) (e : Expr) :
    Prop := ∀ a ∈ e.instances, a ∈ t.makers → t.rank a < r

/-- So every expression is below the next number. -/
theorem below_all (t : ClassTable) (e : Expr) : t.Below (t.makers.card + 1) e :=
  fun a _ _ => Nat.lt_succ_of_le (t.rank_le a)

/-- Without a cycle what an instance needs is of lower rank than the instance. -/
theorem below_of_expands {t : ClassTable} (acyclic : ∀ a, ¬ Relation.TransGen t.Makes a a)
    {className : String} {index : Nat} {e : Expr} (expanded : t.Expands className index e) :
    t.Below (t.rank (className, index)) e :=
  fun _ made known => rank_lt acyclic ⟨e, expanded, made⟩ known

/-- A part of an expression is below what the whole is below. -/
theorem Below.of_parts {t : ClassTable} {r : Nat} {e inner : Expr} (h : t.Below r e)
    (sub : inner.parts ⊆ e.parts) : t.Below r inner :=
  fun a mem => h a (List.filterMap_subset _ sub mem)

/-- So are the items of a row in it. -/
theorem Below.items {t : ClassTable} {r : Nat} {e : Expr} {es : List Expr} (h : t.Below r e)
    (sub : Source.partsOf es ⊆ e.parts) : ∀ inner ∈ es, t.Below r inner :=
  fun _ mem => h.of_parts (List.Subset.trans (Expr.parts_subset mem) sub)

/-- The same of the expressions of statements. -/
def AllBelow (t : ClassTable) (r : Nat) (kinds : List StmtKind) : Prop :=
  ∀ k ∈ kinds, ∀ e ∈ k.exprs, t.Below r e

/-- Fewer statements have fewer expressions. -/
theorem AllBelow.subset {t : ClassTable} {r : Nat} {a b : List StmtKind} (h : t.AllBelow r b)
    (sub : a ⊆ b) :
    t.AllBelow r a := fun k mem => h k (sub mem)

end ClassTable

/-! ## Methods that are not open -/

namespace Surroundings

/-- The keys of the methods of a program. -/
def methodKeys (v : Surroundings) : List String :=
  v.functions.map (·.name) ++ v.classes.decls.flatMap fun d => d.methods.map fun m =>
    s!"{d.name}.{m.name}"

/-- How many bodies and how many regions can still be opened. -/
def room (v : Surroundings) : Nat :=
  (v.methodKeys.toFinset.filter fun key => some key ∉ v.bodies.map Prod.snd).card +
    (v.methodKeys.toFinset.filter fun key => key ∉ v.regions.map Region.key).card

variable {v : Surroundings} {frame : Frame} {region : Region} {key : String}

/-- A place has room for each method twice, open or as a region. -/
theorem room_le (v : Surroundings) : v.room ≤ 2 * v.methodKeys.length := by
  have most := List.toFinset_card_le v.methodKeys
  have bodies := v.methodKeys.toFinset.card_filter_le fun key => some key ∉ v.bodies.map Prod.snd
  have regions := v.methodKeys.toFinset.card_filter_le fun key => key ∉ v.regions.map Region.key
  unfold room
  omega

/-- What is closed in a body was closed outside of it. -/
theorem closed_entered (v : Surroundings) (frame : Frame) :
    ((v.entered frame).methodKeys.toFinset.filter fun key =>
      some key ∉ (v.entered frame).bodies.map Prod.snd) ⊆
      v.methodKeys.toFinset.filter fun key => some key ∉ v.bodies.map Prod.snd := by
  intro key mem
  obtain ⟨known, closed⟩ := Finset.mem_filter.1 mem
  exact Finset.mem_filter.2 ⟨known, fun inside => closed (List.mem_cons_of_mem _ inside)⟩

/-- A body that is entered takes room. -/
theorem room_entered_le (v : Surroundings) (frame : Frame) : (v.entered frame).room ≤ v.room :=
  Nat.add_le_add_right (Finset.card_le_card (closed_entered v frame)) _

/-- A method that was not open yet takes from the room. -/
theorem room_entered_lt (method : frame.method = some key) (known : key ∈ v.methodKeys)
    (closed : some key ∉ v.bodies.map Prod.snd) : (v.entered frame).room < v.room := by
  refine Nat.add_lt_add_right (Finset.card_lt_card
    ((Finset.ssubset_iff_of_subset (closed_entered v frame)).2
    ⟨key, Finset.mem_filter.2 ⟨List.mem_toFinset.2 known, closed⟩, fun mem => ?_⟩)) _
  exact (Finset.mem_filter.1 mem).2 (by simp [entered, method])

/-- And so does a region. -/
theorem room_within_lt (same : region.key = key) (known : key ∈ v.methodKeys)
    (closed : key ∉ v.regions.map Region.key) : (v.within region).room < v.room := by
  refine Nat.add_lt_add_left (Finset.card_lt_card
    ((Finset.ssubset_iff_of_subset fun other mem => ?_).2
    ⟨key, Finset.mem_filter.2 ⟨List.mem_toFinset.2 known, closed⟩, fun mem => ?_⟩)) _
  · obtain ⟨known, outside⟩ := Finset.mem_filter.1 mem
    exact Finset.mem_filter.2 ⟨known, fun inside => outside (List.mem_cons_of_mem _ inside)⟩
  · exact (Finset.mem_filter.1 mem).2 (by simp [within, same])

end Surroundings

namespace Session

/-- A place in a unit of a session. -/
structure Holds (σ : Session) (v : Surroundings) : Prop where
  classes : v.classes = σ.classes
  functions : v.functions = σ.functions

/-- How deep bodies are nested at most in a text at a site, when all instances that the text makes
itself have a lower rank than `r`. -/
noncomputable def need (σ : Session) (v : Surroundings) (r : Nat) : Nat :=
  v.room * (σ.classes.makers.card + 2) + r

variable {σ : Session} {v w : Surroundings} {r q : Nat}

/-- A constructor of lower rank needs less. -/
theorem need_lt_of_rank (room : w.room ≤ v.room) (lower : q < r) : σ.need w q < σ.need v r :=
  Nat.add_lt_add_of_le_of_lt (Nat.mul_le_mul_right _ room) lower

/-- A method that takes from the room needs less, whatever it makes. -/
theorem need_lt_of_room (room : w.room < v.room) :
    σ.need w (σ.classes.makers.card + 1) < σ.need v r := by
  have less : (w.room + 1) * (σ.classes.makers.card + 2) ≤ v.room * (σ.classes.makers.card + 2) :=
    Nat.mul_le_mul_right _ room
  rw [Nat.add_mul] at less
  unfold need
  omega

/-- There are as many methods as the program declares. -/
theorem length_methodKeys (holds : σ.Holds v) : v.methodKeys.length =
    σ.functions.length + (σ.classes.decls.map fun d => d.methods.length).sum := by
  rw [Surroundings.methodKeys, List.length_append, List.length_map, List.length_flatMap,
    holds.classes,
    holds.functions]
  simp

/-- Lowering gives up only beyond what any text needs. -/
theorem need_le_expansionBound (holds : σ.Holds v) :
    σ.need v (σ.classes.makers.card + 1) ≤ expansionBound σ := by
  have room := v.room_le
  rw [length_methodKeys holds] at room
  have made := σ.classes.card_makers_le
  unfold need expansionBound
  generalize σ.functions.length + (σ.classes.decls.map fun d => d.methods.length).sum =
    methods at room
  generalize (σ.classes.decls.map fun d => d.constructors.length + 1 + d.fields.length).sum =
    makers at made
  calc v.room * (σ.classes.makers.card + 2) + (σ.classes.makers.card + 1)
      ≤ 2 * methods * (2 * makers + 2) + (2 * makers + 2) := by
        exact Nat.add_le_add (Nat.mul_le_mul room (by omega)) (by omega)
    _ ≤ (2 * methods + 1) * (2 * makers + 2) + 1 := by
        rw [Nat.add_mul, Nat.one_mul]
        omega

end Session

/-! ## What is called -/

/-- A call means a method of the program. -/
theorem Lower.key_of_resolveCallee {className : Option String} {method : String} {callee : Callee}
    {s t : UnitState} (h : run (resolveCallee className method) s = some (.ok callee, t)) :
    callee.key ∈ s.surroundings.methodKeys := by
  obtain ⟨_, _, ⟨⟩, h⟩ := run_bind_ok.1 h
  cases className with
  | none =>
    obtain ⟨decl, u, found, made⟩ := run_bind_ok.1 h
    obtain ⟨found, rfl⟩ := run_lift_ok.1 found
    cases made
    unfold Session.findFunction at found
    split at found
    · next f named =>
      cases found
      refine List.mem_append_left _ (List.mem_map.2 ⟨_, List.mem_of_find?_eq_some named, ?_⟩)
      simpa using List.find?_some named
    · cases found
  | some className =>
    obtain ⟨⟨owner, decl⟩, u, searched, made⟩ := run_bind_ok.1 h
    obtain ⟨found, rfl⟩ := run_lift_ok.1 searched
    cases made
    -- the method may be declared in a class above, whose name its key has
    obtain ⟨up, walked, found⟩ := except_bind_ok.1 found
    dsimp only at found
    split at found
    · next pair declared =>
      cases found
      obtain ⟨d, above, has⟩ := List.exists_of_findSome?_eq_some declared
      obtain ⟨m, named, same⟩ := Option.map_eq_some_iff.1 has
      cases same
      obtain ⟨layout, -, walked⟩ := except_bind_ok.1 walked
      cases walked
      obtain ⟨name, -, known⟩ := List.mem_filterMap.1 above
      have name : decl.name = method := by simpa using List.find?_some named
      exact List.mem_append_right _ (List.mem_flatMap.2 ⟨d, List.mem_of_find?_eq_some known,
        List.mem_map.2 ⟨_, List.mem_of_find?_eq_some named, by rw [name]⟩⟩)
    · cases found

/-- A region has the key of its method. -/
theorem Lower.key_of_openRegion {key : String} {params : List String} {receiver : Option Element}
    {arguments : List Element} {result : IndexedVar} {s t : UnitState} {region : Region}
    (h : run (openRegion key params receiver arguments result) s = some (.ok region, t)) :
    region.key = key := by
  simp only [openRegion, run_bind_ok, run_position, run_pure, Option.some.injEq, Prod.mk.injEq,
    Except.ok.injEq] at h
  obtain ⟨_, _, -, _, _, -, _, _, -, _, _, -, _, _, -, _, _, -, _, _, -, rfl, -⟩ := h
  rfl

/-- A region that is not found is not open. -/
theorem Lower.keys_of_findRegion?_none {regions : List Region} {key : String}
    (h : findRegion? regions key = none) :
    key ∉ (regions.map fun region => { region with callSites := [] }).map Region.key := by
  intro inside
  obtain ⟨_, open', same⟩ := List.mem_map.1 inside
  obtain ⟨region, mem, rfl⟩ := List.mem_map.1 open'
  unfold findRegion? at h
  split at h
  · next index found =>
    have inside := (List.findIdx?_eq_some_iff_getElem.1 found).1
    rw [List.getElem?_eq_getElem inside] at h
    cases h
  · next none =>
    have other := List.findIdx?_eq_none_iff.1 none region mem
    exact absurd same (by simpa using other)

/-! ## Bodies -/

/-- The lowering of bodies gives an answer at every site that needs less than `n`. -/
structure Expander.Ends (into : Expander) (σ : Session) (n : Nat) : Prop where
  block : ∀ v r body, σ.Holds v → σ.need v r < n → σ.classes.AllBelow r (Source.kindsOf body) →
    Brings v v (into.block body)
  initial : ∀ v r e, σ.Holds v → σ.need v r < n → σ.classes.Below r e → Brings v v (into.initial e)

/-- An expander that is deep enough for a site is for one that needs less. -/
theorem Expander.Ends.mono {into : Expander} {σ : Session} {n m : Nat} (h : into.Ends σ m)
    (le : n ≤ m) :
    into.Ends σ n :=
  ⟨fun v r body holds less => h.block v r body holds (less.trans_le le),
    fun v r e holds less => h.initial v r e holds (less.trans_le le)⟩

namespace Session.Holds

variable {σ : Session} {v : Surroundings}

/-- A body that is entered is of the same program. -/
theorem entered (h : σ.Holds v) (frame : Frame) :
    σ.Holds (v.entered frame) := ⟨h.classes, h.functions⟩

/-- So is a region. -/
theorem within (h : σ.Holds v) (region : Region) :
    σ.Holds (v.within region) := ⟨h.classes, h.functions⟩

/-- The classes at the site are those of the session. -/
theorem program {s : UnitState} (h : σ.Holds v) (here : s.surroundings.site = v) :
    s.session.classes = σ.classes := by
  subst here
  exact h.classes

end Session.Holds

/-- An expander goes deep enough for what a text at a site needs, when the instances that the text
makes itself have a lower rank than `r`. -/
structure Expander.Suffices (into : Expander) (σ : Session) (v : Surroundings) (r : Nat) :
    Prop where
  acyclic : ∀ a, ¬ Relation.TransGen σ.classes.Makes a a
  holds : σ.Holds v
  bodies : into.Ends σ (σ.need v r)

namespace Expander.Suffices

variable {into : Expander} {σ : Session} {v : Surroundings} {r : Nat}

/-- A body is expanded to its end where there is room for it. -/
theorem expandBody (h : into.Suffices σ v r) (q : Nat) {key : String}
    {body : List Stmt} (params : List String) (receiver : Option Element) (arguments : List Element)
    (result : Option IndexedVar)
    (less : ∀ frame : Frame, frame.method = some key → σ.need (v.entered frame) q < σ.need v r)
    (below : σ.classes.AllBelow q (Source.kindsOf body)) :
    Brings v v (Lower.expandBody into key params body receiver arguments result) := by
  rw [expandBody_eq]
  refine .look fun s here => ?_
  refine .inBody
    (.bind (.inScope_of (Answers.rules.bindCall _ _ _) (StaysInScope.rules.bindCall _ _ _))
    fun _ => ?_)
  exact h.bodies.block _ q body (h.holds.entered _) (less _ rfl) below

/-- So is a region. -/
theorem expandRegion (h : into.Suffices σ v r) (q : Nat) {key : String}
    {body : List Stmt} (params : List String) (receiver : Option Element) (arguments : List Element)
    (less : ∀ (frame : Frame) (region : Region), region.key = key →
      σ.need ((v.entered frame).within region) q < σ.need v r)
    (below : σ.classes.AllBelow q (Source.kindsOf body)) :
    Brings v v (Lower.expandRegion into key params body receiver arguments) := by
  -- what is opened for the body of the region is closed behind it
  have framed (frame : Frame) (region : Region) (address : IndexedVar) (same : region.key = key) :
      Brings v v (do
        pushFrame frame
        pushRegion region
        into.block body
        closeRegion address) :=
    .bind (.pushFrame frame) fun _ => .bind (.pushRegion region) fun _ =>
      .bind (h.bodies.block _ q body ((h.holds.entered frame).within region)
        (less frame region same) below) fun _ =>
        .bind .closeFrame fun _ => .bind .popRegion fun _ =>
          .bind (.stay (.emit _) (.emit _)) fun _ => .pure _
  rw [expandRegion_eq]
  refine .bind (.stay (.temp _) (.temp _)) fun result =>
    .bind (.stay (.temp _) (.temp _)) fun address => ?_
  refine .look fun s here =>
    .bind (.inScope (.bindOk (.inScope_of (Answers.rules.openRegion _ _ _ _ _)
    (StaysInScope.rules.openRegion _ _ _ _ _)) fun s region t _ opened => ?_)) fun _ =>
      .bind (.stay (.dispatch _ _ _) (.dispatch _ _ _)) fun _ => .pure _
  exact framed _ region address (key_of_openRegion opened)

/-- A call is refused, becomes a skip to a region that is open, or takes from the room. -/
theorem expandCall (h : into.Suffices σ v r) {callee : Callee}
    (known : callee.key ∈ v.methodKeys) (receiver : Option Element) (arguments : List Element) :
    Brings v v (Lower.expandCall into callee receiver arguments) := by
  have below : σ.classes.AllBelow (σ.classes.makers.card + 1) (Source.kindsOf callee.decl.body) :=
    fun _ _ e _ => σ.classes.below_all e
  have pinned (x : Element) : Brings v v (Lower.materialize x) :=
    .stay (Answers.rules.materialize x) (.materialize x)
  refine .look fun s here => ?_
  dsimp only
  split
  · split
    · exact .bind (.stay (.callRegion _ _ _ _) (.callRegion _ _ _ _)) fun _ => pinned _
    · next closed =>
      refine .bind (h.expandRegion _ _ _ _ (fun frame region same => ?_) below) fun _ => pinned _
      have fresh : callee.key ∉ (v.entered frame).regions.map Region.key := by
        subst here
        exact keys_of_findRegion?_none closed
      have less := Surroundings.room_within_lt (v := v.entered frame) same known fresh
      exact Session.need_lt_of_room (less.trans_le (v.room_entered_le frame))
  · split
    · exact .bind (v := v) (.throw _) fun _ => pinned _
    · next closed =>
      refine .bind (.stay (.temp _) (.temp _)) fun _ => .bind (h.expandBody _ _ _ _ _
        (fun frame method => ?_) below) fun _ => pinned _
      have fresh : some callee.key ∉ v.bodies.map Prod.snd := by
        subst here
        simpa [Surroundings.site, UnitState.surroundings] using closed
      exact Session.need_lt_of_room (Surroundings.room_entered_lt method known fresh)

/-- Initial values of lower rank come to an end. -/
theorem initializeFields (h : into.Suffices σ v r) {q : Nat}
    (this : Element) {fields : List (Nat × Option Expr)} (lower : q < r)
    (below : ∀ stack e, (stack, some e) ∈ fields → σ.classes.Below q e) :
    Brings v v (Lower.initializeFields into this fields) := by
  have less (frame : Frame) : σ.need (v.entered frame) q < σ.need v r :=
    Session.need_lt_of_rank (v.room_entered_le frame) lower
  have write (w : Surroundings) (stack : Nat) (value : Element) : Brings w w (do
      emit ((← onStorage (ClassStorage.fieldStack stack)).set value none [this])) :=
    .bind (.stay (.onStorage _) (.onStorage _)) fun _ => .stay (.emit _) (.emit _)
  refine .look fun s here => .inBody (.bind (.inScope_of (.bindName _ _) (.bindName _ _)) fun _ =>
    (Brings.composes _).forM fun field mem => ?_)
  obtain ⟨stack, _ | e⟩ := field
  · exact .bind (.pure _) fun _ => write _ stack _
  · exact .bind (h.bodies.initial _ q e (h.holds.entered _) (less _) (below stack e mem)) fun _ =>
      write _ stack _

/-- A `new` goes on with what has a lower rank than its constructor. -/
theorem expandNew (h : into.Suffices σ v r) {className : String} {index : Nat}
    (arguments : List Element)
    (lower : (className, index) ∈ σ.classes.makers → σ.classes.rank (className, index) < r) :
    Brings v v (Lower.expandNew into className index arguments) := by
  rw [expandNew_eq]
  refine .look fun s here => .known fun constructor found => ?_
  rw [h.holds.program here] at found
  have lower := lower (ClassTable.mem_makers found)
  unfold accept acquire
  rw [h.holds.program here]
  split
  · exact .throw _
  refine .known fun fields initials => .bind (.stay (.hiddenName _) (.hiddenName _)) fun name =>
    .bind (.inScope_of (Answers.rules.declare _ _ _) (StaysInScope.rules.declare _ _ _))
      fun handle =>
      .known fun layout _ => .bind (.stay (.onStorage _) (.onStorage _)) fun _ =>
        .bind (.stay (.onStorage _) (.onStorage _)) fun _ => ?_
  refine .bind (h.initializeFields _ lower fun stack e mem => ?_) fun _ =>
    .bind (h.expandBody (σ.classes.rank (className, index)) _ _ _ _ (fun frame _ => ?_)
      fun k hk e he => ?_) fun _ => .pure _
  · exact ClassTable.below_of_expands h.acyclic (.initial initials mem)
  · exact Session.need_lt_of_rank (v.room_entered_le frame) lower
  · exact ClassTable.below_of_expands h.acyclic (.body found hk he)

end Expander.Suffices

namespace Lower.Brings

variable {into : Expander} {σ : Session} {v : Surroundings} {r : Nat}

/-! ## Expressions -/

/-- No expression is lowered without any effort. -/
theorem nothing : Brings v v (lowerExprs into []) := by
  rw [lowerExprs]
  exact .pure _

/-- A row of one is lowered when the expression is. -/
theorem row {e : Expr} (he : Brings v v (lowerExpr into e)) : Brings v v (lowerExprs into [e]) := by
  rw [lowerExprs]
  exact .bind he fun _ => .bind nothing fun _ => .pure _

/-- A call comes to an end with the receiver, the arguments and the body. -/
theorem call (h : into.Suffices σ v r) {className : Option String}
    {method : String} {object : Option Expr} {arguments : List Expr}
    (hr : ∀ callee, Brings v v (lowerExprs into (receiverOf callee object)))
    (ha : Brings v v (lowerExprs into arguments)) :
    Brings v v (lowerExpr into (.call className method object arguments)) := by
  rw [lowerExpr_call]
  refine .bindOk (.stay (.resolveCallee _ _) fun s x t h => ?_) fun s callee t here resolved => ?_
  · rw [run_resolveCallee_ok h]
    rfl
  have known : callee.key ∈ v.methodKeys := by
    subst here
    exact key_of_resolveCallee resolved
  refine .bind (.stay (.checkArity _ _) fun s x t h => ?_) fun _ => .bind (hr callee) fun _ =>
    .bind ha fun _ => h.expandCall known _ _
  rw [(run_checkArity_ok h).2]
  rfl

mutual

/-- An expression has an answer where its instances are of lower rank than what the site has room
for. -/
theorem expr (site : into.Suffices σ v r) :
    (e : Expr) → σ.classes.Below r e → Brings v v (lowerExpr into e)
  | .number _, _ | .bool _, _ | .currentActor, _ => by
    rw [lowerExpr]
    exact .pure _
  | .array items, h => by
    rw [lowerExpr]
    exact .bind (exprs site items fun e he => h.items (by simp [Expr.parts]) e he) fun _ => .pure _
  | .var name, _ => by
    rw [lowerExpr]
    exact .bind (.stay (.lookup _) (.lookup _)) fun _ => .pure _
  | .index array index, h => by
    rw [lowerExpr]
    exact .bind (expr site array (h.of_parts (by simp [Expr.parts]))) fun _ =>
      .bind (expr site index (h.of_parts (by simp [Expr.parts]))) fun _ => .pure _
  | .field object className field, h => by
    rw [lowerExpr]
    exact .bind (expr site object (h.of_parts (by simp [Expr.parts]))) fun _ =>
      .bind (.stay (.fieldVar _ _ _) (.fieldVar _ _ _)) fun _ => .pure _
  | .staticField className field, _ => by
    rw [lowerExpr]
    exact .bind (.stay (.staticVar _ _) (.staticVar _ _)) fun _ => .pure _
  | .actorVar actor name, h => by
    rw [lowerExpr]
    exact .bind (.stay (.actorVar _) (.actorVar _)) fun _ =>
      .bind (expr site actor (h.of_parts (by simp [Expr.parts]))) fun _ => .pure _
  | .binary op lhs rhs, h => by
    rw [lowerExpr]
    exact .bind (expr site lhs (h.of_parts (by simp [Expr.parts]))) fun _ =>
      .bind (expr site rhs (h.of_parts (by simp [Expr.parts]))) fun _ => .pure _
  | .not inner, h | .negate inner, h | .length inner, h => by
    rw [lowerExpr]
    exact .bind (expr site inner (h.of_parts (by simp [Expr.parts]))) fun _ => .pure _
  | .new className index arguments, h => by
    have made : (className, index) ∈ (Expr.new className index arguments).instances :=
      List.mem_filterMap.2 ⟨.new className index arguments, by simp [Expr.parts], rfl⟩
    rw [lowerExpr]
    exact .bind (exprs site arguments fun e he => h.items (by simp [Expr.parts]) e he) fun _ =>
      site.expandNew _ (h _ made)
  | .call className method none arguments, h => by
    refine call site (fun callee => ?_) (exprs site arguments fun e he =>
      h.items (by simp [Expr.parts]) e he)
    -- only a callee that takes a receiver looks `this` up
    unfold receiverOf
    split
    · refine row (e := .this) ?_
      rw [lowerExpr]
      exact .bind (.stay (.lookup _) (.lookup _)) fun _ => .pure _
    · exact nothing
  | .call className method (some object) arguments, h => by
    refine call site (fun callee => ?_) (exprs site arguments fun e he =>
      h.items (by simp [Expr.parts]) e he)
    -- only a callee that takes a receiver has the object lowered
    unfold receiverOf
    split
    · exact row (expr site object (h.of_parts (by simp [Expr.parts])))
    · exact nothing
  | .this, _ => by
    rw [lowerExpr]
    exact .bind (.stay (.lookup _) (.lookup _)) fun _ => .pure _

/-- A row of expressions comes to an end when each does. -/
theorem exprs (site : into.Suffices σ v r) :
    (es : List Expr) → (∀ e ∈ es, σ.classes.Below r e) → Brings v v (lowerExprs into es)
  | [], _ => by
    rw [lowerExprs]
    exact .pure _
  | e :: es, h => by
    rw [lowerExprs]
    exact .bind (expr site e (h e List.mem_cons_self)) fun _ =>
      .bind (exprs site es fun e he => h e (List.mem_cons_of_mem _ he)) fun _ => .pure _

end

/-! ## Statements -/

theorem optional {o : Option Expr} (h : ∀ e ∈ o.toList, Brings v v (lowerExpr into e)) :
    Brings v v (o.mapM (lowerExpr into)) := by
  cases o with
  | none => exact .pure _
  | some e => exact (Brings.composes v).map _ (h e (by simp))

/-- An assignment comes to an end with its expressions. -/
theorem assign (site : into.Suffices σ v r) {target : Place} (index : List Element)
    (op : Source.AssignOp) {value : Expr} (ht : ∀ e ∈ target.exprs, σ.classes.Below r e)
    (hv : σ.classes.Below r value) :
    Brings v v (Lower.assign into target index op value) := by
  cases target with
  | var name =>
    exact .bind (.stay (.lookup _) (.lookup _)) fun _ => .bind (expr site value hv) fun _ =>
      .known fun _ _ => .stay (.emit _) (.emit _)
  | field object className field =>
    exact .bind (expr site object (ht _ List.mem_cons_self)) fun _ =>
      .bind (.stay (.fieldVar _ _ _) (.fieldVar _ _ _)) fun _ => .bind (expr site value hv) fun _ =>
        .stay (.emit _) (.emit _)
  | staticField className field =>
    exact .bind (.stay (.staticVar _ _) (.staticVar _ _)) fun _ =>
      .bind (expr site value hv) fun _ =>
      .stay (.emit _) (.emit _)
  | actorVar actor name =>
    exact .bind (.stay (.actorVar _) (.actorVar _)) fun _ =>
      .bind (expr site actor (ht _ List.mem_cons_self)) fun _ => .bind (expr site value hv) fun _ =>
        .known fun _ _ => .stay (.emit _) (.emit _)

/-- So does giving up an instance. -/
theorem delete (site : into.Suffices σ v r) {object : Expr} (className : String)
    (ho : σ.classes.Below r object) : Brings v v (Lower.delete into object className) :=
  .bind (expr site object ho) fun _ => .bind (.stay (.hiddenName _) (.hiddenName _)) fun _ =>
    .bind (.inScope_of (Answers.rules.declare _ _ _) (StaysInScope.rules.declare _ _ _)) fun _ =>
      .look fun _ _ => .stay (.onStorage _) (.onStorage _)

/-- So does a condition. -/
theorem openCondition (site : into.Suffices σ v r) {condition : Expr}
    (hc : σ.classes.Below r condition) :
    Brings v v (Lower.openCondition into condition) :=
      .bind .openScope fun _ => expr site condition hc

theorem closeCondition : Brings v v Lower.closeCondition :=
  .moves .closeCondition .closeCondition fun _ here => here

theorem openArm (site : into.Suffices σ v r) {condition : Expr} (hc : σ.classes.Below r condition) :
    Brings v v (Lower.openArm into condition) :=
  .bind (.openCondition site hc) fun _ => .look fun _ _ => .known fun _ _ =>
    .bind (.stay (.modifyList _) (.modifyList _)) fun _ => .bind .closeCondition fun _ => .pure _

theorem openLoop (site : into.Suffices σ v r) (kind : LoopKind) {condition : Expr}
    (hc : σ.classes.Below r condition) : Brings v v (Lower.openLoop into kind condition) :=
  .look fun _ _ => .bind (.stay (.onLoop _ _) (.onLoop _ _)) fun _ =>
    .bind (.openCondition site hc) fun _ =>
    .bind (.stay (.onLoop _ _) (.onLoop _ _)) fun _ => .bind .closeCondition fun _ => .pure _

theorem closeLoop (block : LoopBlock) (tail : List Action) :
    Brings v v (Lower.closeLoop block tail) :=
  .stay (.closeLoop _ _) (.closeLoop _ _)

-- By recursion over the source: what is in a statement makes no instances but those of the
-- statement.
mutual

/-- A statement comes to an end when the expressions in it do, by recursion over its parts. -/
theorem stmt (site : into.Suffices σ v r) : (s : Stmt) → σ.classes.AllBelow r s.kinds →
    Brings v v (lowerStmt into s)
  | .mk k span, h => by
    rw [lowerStmt]
    exact .located span (kind site k h)

/-- The same for its kinds, which all have smaller parts. -/
theorem kind (site : into.Suffices σ v r) : (k : StmtKind) → σ.classes.AllBelow r k.kinds →
    Brings v v (lowerKind into k)
  | .define name initial recursive, h => by
    have own := h _ (StmtKind.mem_kinds _)
    rw [lowerKind]
    exact .bind (optional fun e he => expr site e (own e he)) fun _ => (Brings.composes v).map _
      (.inScope_of (Answers.rules.declare _ _ _) (StaysInScope.rules.declare _ _ _))
  | .assign target index op value, h => by
    have own := h _ (StmtKind.mem_kinds _)
    rw [lowerKind]
    exact .bind (exprs site index fun e he => own e (by simp [StmtKind.exprs, he])) fun _ =>
      assign site _ _ (fun e he => own e (by simp [StmtKind.exprs, he]))
        (own value (by simp [StmtKind.exprs]))
  | .cond branches none, h => by
    have own := h _ (StmtKind.mem_kinds _)
    rw [lowerKind]
    exact .bind (arms site _ _ branches (fun condition body mem => own _ (List.mem_map_of_mem mem))
      (h.subset (by simp [StmtKind.kinds]))) fun _ => .stay (.closeChain _) (.closeChain _)
  | .cond branches (some body), h => by
    have own := h _ (StmtKind.mem_kinds _)
    rw [lowerKind]
    exact .bind (arms site _ _ branches (fun condition body mem => own _ (List.mem_map_of_mem mem))
      (h.subset (by simp [StmtKind.kinds]))) fun _ =>
        .bind (.inScope (stmts site body (h.subset (by simp [StmtKind.kinds])))) fun _ =>
          .stay (.closeChain _) (.closeChain _)
  | .while condition body, h => by
    have own := h _ (StmtKind.mem_kinds _) condition (by simp [StmtKind.exprs])
    rw [lowerKind]
    exact .bind (openLoop site _ own) fun _ =>
      .bind (.inScope (stmts site body (h.subset (by simp [StmtKind.kinds])))) fun _ =>
        closeLoop _ _
  | .for start condition step body, h => by
    have own := h _ (StmtKind.mem_kinds _) condition (by simp [StmtKind.exprs])
    rw [Source.kinds_for] at h
    -- behind the first statement, if there is one
    have rest : Brings v v (do
        let (block, tail) ← Lower.openLoop into .for condition
        Lower.inScope (lowerStmts into body)
        let block ← Lower.onLoop block LoopBlock.epilogue
        match step with
        | some s => Lower.inScope (lowerStmt into s)
        | none => Pure.pure ()
        Lower.closeLoop block tail) := by
      refine .bind (openLoop site _ own) fun _ =>
        .bind (.inScope (stmts site body (h.subset fun k hk => by simp [hk]))) fun _ =>
          .bind (.stay (.onLoop _ _) (.onLoop _ _)) fun _ => ?_
      cases step with
      | none => exact closeLoop _ _
      | some s =>
        exact .bind (.inScope (stmt site s (h.subset fun k hk => by simp [Source.kindsOf, hk])))
          fun _ =>
          closeLoop _ _
    rw [lowerKind]
    refine .inScope ?_
    cases start with
    | none => exact rest
    | some s =>
      exact .bind (stmt site s (h.subset fun k hk => by simp [Source.kindsOf, hk])) fun _ => rest
  | .forEach element index array body, h => by
    have own := h _ (StmtKind.mem_kinds _) array (by simp [StmtKind.exprs])
    rw [lowerKind]
    exact .bind (expr site array own) fun _ =>
      .inScope (.bind (.inScope_of (.openForEach _ _) (.openForEach _ _)) fun _ =>
        .bind (.inScope (.bind (.inScope_of (.bindName _ _) (.bindName _ _)) fun _ =>
          stmts site body (h.subset (by simp [StmtKind.kinds])))) fun _ => closeLoop _ _)
  | .break depth, _ => by
    rw [lowerKind]
    exact .stay (.leaveLoop _ _ _) (.leaveLoop _ _ _)
  | .continue depth, _ => by
    rw [lowerKind]
    exact .stay (.leaveLoop _ _ _) (.leaveLoop _ _ _)
  | .return value, h => by
    have own := h _ (StmtKind.mem_kinds _)
    rw [lowerKind]
    exact .bind (optional fun e he => expr site e (own e he)) fun _ =>
      .stay (.leaveFrame _) (.leaveFrame _)
  | .delete object className, h => by
    rw [lowerKind]
    exact delete site _ (h _ (StmtKind.mem_kinds _) object (by simp [StmtKind.exprs]))
  | .block body, h => by
    rw [lowerKind]
    exact .inScope (stmts site body (h.subset (by simp [StmtKind.kinds])))
  | .expr value, h => by
    rw [lowerKind]
    exact (Brings.composes v).map _
      (expr site value (h _ (StmtKind.mem_kinds _) value (by simp [StmtKind.exprs])))

/-- The same for a row of statements. -/
theorem stmts (site : into.Suffices σ v r) : (body : List Stmt) →
    σ.classes.AllBelow r (Source.kindsOf body) → Brings v v (lowerStmts into body)
  | [], _ => by
    rw [lowerStmts]
    exact .pure _
  | s :: rest, h => by
    rw [Source.kindsOf] at h
    rw [lowerStmts]
    exact .bind (stmt site s (h.subset (by simp))) fun _ => stmts site rest (h.subset (by simp))

/-- The same for the branches of a condition. -/
theorem arms (site : into.Suffices σ v r) (more : Bool) (chain : IfChain) :
    (branches : List Branch) →
    (∀ condition body, .mk condition body ∈ branches → σ.classes.Below r condition) →
      σ.classes.AllBelow r (Source.kindsOfBranches branches) →
        Brings v v (lowerBranches into more chain branches)
  | [], _, _ => by
    rw [lowerBranches]
    exact .pure _
  | .mk condition body :: rest, conditions, inner => by
    rw [Source.kindsOfBranches] at inner
    rw [lowerBranches]
    exact .bind (openArm site (conditions _ _ List.mem_cons_self)) fun _ =>
      .bind (.inScope (stmts site body (inner.subset (by simp)))) fun _ =>
        .bind (.stay (.closeArm _ _ _ _) (.closeArm _ _ _ _)) fun _ =>
          arms site _ _ rest (fun _ _ mem => conditions _ _ (List.mem_cons_of_mem _ mem))
            (inner.subset (by simp))

end

end Lower.Brings

/-! ## Units -/

/-- An expander of some depth gives an answer wherever less depth is needed. -/
theorem Expander.Ends.expander {σ : Session}
    (acyclic : ∀ a, ¬ Relation.TransGen σ.classes.Makes a a) :
    ∀ depth, (SkipCode.expander depth).Ends σ depth
  | 0 =>
    ⟨fun _ _ _ _ less => absurd less (Nat.not_lt_zero _),
      fun _ _ _ _ less => absurd less (Nat.not_lt_zero _)⟩
  | depth + 1 => by
    -- a body is lowered by the next expander, which goes as deep as the body needs
    have enough (v : Surroundings) (r : Nat) (holds : σ.Holds v) (less : σ.need v r < depth + 1) :
        (SkipCode.expander depth).Suffices σ v r :=
      ⟨acyclic, holds, (Expander.Ends.expander acyclic depth).mono (Nat.le_of_lt_succ less)⟩
    exact ⟨fun v r body holds less below => .inScope (.stmts (enough v r holds less) body below),
      fun v r e holds less below => .expr (enough v r holds less) e below⟩

namespace Session

variable {σ : Session}

/-- A unit comes to an end in a session without cycles of instances. -/
theorem unit_ends (acyclic : ∀ a, ¬ Relation.TransGen σ.classes.Makes a a) (unit : String)
    (pool : Pool) {body : Expander → Lower Unit}
    (ends : ∀ into v, into.Suffices σ v (σ.classes.makers.card + 1) → Brings v v (body into)) :
    ∃ output, σ.runUnit unit pool body = some output := by
  -- the unit is a body itself, the only one without a method
  let start : UnitState := .new σ unit pool
  let site := (start.surroundings.site).entered unitFrame
  have holds : σ.Holds site := ⟨rfl, rfl⟩
  have enough : (expander (expansionBound σ)).Suffices σ site (σ.classes.makers.card + 1) :=
    ⟨acyclic, holds, (Expander.Ends.expander acyclic _).mono (need_le_expansionBound holds)⟩
  have whole : Brings start.surroundings.site site.left
    (unitBody (body (expander (expansionBound σ)))) :=
    .bind (.pushFrame _) fun _ => .bind (.inScope (ends _ _ enough)) fun _ =>
      .bind .closeFrame fun _ =>
      .stay .finish .finish
  obtain ⟨r, t, ran, -⟩ := whole start rfl
  rw [runUnit, ran]
  exact ⟨_, rfl⟩

/-- Where no constructor makes, by itself and by the constructors and initial values that it goes
through, an instance in whose making it comes again, lowering has an end: every rule and the initial
values of the static fields give an output. -/
theorem lowering_ends (acyclic : ∀ a, ¬ Relation.TransGen σ.classes.Makes a a) :
    (∀ unit pool body, ∃ output, σ.lowerUnit unit pool body = some output) ∧
      ∃ output, σ.lowerStaticInit = some output := by
  refine ⟨fun unit pool body => unit_ends acyclic unit pool fun into v site => ?_,
    unit_ends acyclic _ _ fun into v site => ?_⟩
  · exact .stmts site body fun _ _ e _ => σ.classes.below_all e
  · refine (Brings.composes v).forM fun initial _ =>
      .bind (.expr site _ (σ.classes.below_all _)) fun _ =>
      .bind (.stay (.staticVar _ _) (.staticVar _ _)) fun _ => .stay (.emit _) (.emit _)

end Session

namespace Unfolding

open Source (ClassDecl FieldDecl MethodDecl Program)

def part : ClassDecl := .named "Part" none [] [] []

/-- A class whose instances have an instance of another class. -/
def whole : ClassDecl := .named "Whole" none [.instance "part" (some (.newObject "Part" []))] [] []

def nested : Program := ⟨[part, whole], [], []⟩

/-- A class whose instances have an instance of the same class. -/
def doll : ClassDecl := .named "Doll" none [.instance "inner" (some (.newObject "Doll" []))] [] []

/-- A class whose constructor calls a function that makes another instance of the class. -/
def again : Program :=
  ⟨[.named "Again" none [] [⟨[], [.expr (.callFunction "make" [])]⟩] []],
    [(MethodDecl.named "make" [] [.expr (.newObject "Again" [])]).markRecursive], []⟩

end Unfolding

open Unfolding in
/-- A class that has an instance of another class. -/
theorem lowering_ends_nested : ∃ σ, Session.new .default nested = .ok σ ∧
    (∀ a, ¬ Relation.TransGen σ.classes.Makes a a) ∧
    (∀ unit pool body, ∃ output, σ.lowerUnit unit pool body = some output) ∧
      ∃ output, σ.lowerStaticInit = some output := by
  obtain ⟨σ, start, bodies, initials, last⟩ : ∃ σ, Session.new .default nested = .ok σ ∧
      σ.classes.bodies = [] ∧ σ.classes.initials = [.newObject "Part" []] ∧
      Lower.fieldInitials σ.classes "Part" = .ok [] := ⟨_, rfl, rfl, rfl, rfl⟩
  -- only an initial value makes something, and it makes a part, which has no initial values
  have makes {a b : String × Nat} (h : σ.classes.Makes a b) : a.1 ≠ "Part" ∧ b = ("Part", 0) := by
    obtain ⟨e, expanded, made⟩ := h
    cases expanded with
    | body found inside =>
      rcases ClassTable.constructor_mem_bodies found with none | mem
      · rw [none] at inside
        cases inside
      · rw [bodies] at mem
        cases mem
    | initial found mem =>
      have known := ClassTable.fieldInitials_mem found mem
      rw [initials, List.mem_singleton] at known
      subst known
      refine ⟨fun same =>
        ?_, by simpa [Source.Expr.instances, Source.Expr.newObject, Source.Expr.parts,
        Source.partsOf] using made⟩
      rw [same, last] at found
      cases found
      cases mem
  have acyclic (a : String × Nat) : ¬ Relation.TransGen σ.classes.Makes a a := by
    intro round
    obtain ⟨b, -, back⟩ := Relation.TransGen.tail'_iff.1 round
    obtain ⟨c, away, -⟩ := Relation.TransGen.head'_iff.1 round
    exact (makes away).1 (congrArg Prod.fst (makes back).2)
  exact ⟨σ, start, acyclic, Session.lowering_ends acyclic⟩

open Unfolding in
/-- A constructor is written inside itself where it comes up again behind a call, and an initial
value that makes an instance of its own class has no end. -/
theorem constructor_inside_itself :
    (∃ σ output list, Session.new .default again = .ok σ ∧
      σ.lowerUnit "rule" .global [.expr (.newObject "Again" [])] = some output ∧
        output.result = .ok list) ∧
    ∃ σ, Session.new .default ⟨[doll], [], []⟩ = .ok σ ∧
      σ.lowerUnit "rule" .global [.expr (.newObject "Doll" [])] = none := by
  constructor
  · obtain ⟨σ, start, lowers⟩ : ∃ σ, Session.new .default again = .ok σ ∧
        (σ.lowerUnit "rule" .global [.expr (.newObject "Again" [])]).any (·.result.isOk) = true :=
      ⟨_, rfl, by decide +kernel⟩
    obtain ⟨output, found, isOk⟩ := (Option.any_eq_true _ _).1 lowers
    cases result : output.result with
    | error _ =>
      rw [result] at isOk
      cases isOk
    | ok list => exact ⟨σ, output, list, start, found, result⟩
  · exact ⟨_, rfl, Option.isNone_iff_eq_none.1 (by decide +kernel)⟩

end SkipCode
