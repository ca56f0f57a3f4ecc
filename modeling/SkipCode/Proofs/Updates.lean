import SkipCode.Proofs.Agreement

/-!
# How a memory follows a body

Each write of the compiled code changes one location, and does to the memory what the statement does
to the state that the memory agrees with.

* `Reads.moved`, `Reads.stored`: what is read where one location was written;
* `acts_set`: a write at a path does what `put` says;
* `Agrees`: a state and a memory agree at a place of the code, where `Δ` are the stacks in reach;
* `Agrees.assign`, `Agrees.push`, `Agrees.pops`: they agree again behind a write, a push, and pops.
-/

namespace SkipCode

open Engine (Host Memory)

/-! ## Writes -/

/-- One location has a new value. -/
def Engine.Host.Updates (h : Host) (m : Memory) (l : Location) (v : Value) (m' : Memory) : Prop :=
  ∀ l', h.value m' l' = if l' = l then v else h.value m l'

namespace Engine.Host.Updates

variable {h : Host} {m m' : Memory} {l l' : Location} {v : Value}

theorem here (updates : h.Updates m l v m') : h.value m' l = v := (updates l).trans (if_pos rfl)

theorem elsewhere (updates : h.Updates m l v m') (other : l' ≠ l) : h.value m' l' = h.value m l' :=
  (updates l').trans (if_neg other)

end Engine.Host.Updates

namespace Meaning

variable {h : Host} {m m' : Memory} {l : Location}

/-- Elements and their values. -/
abbrev Evaluates (h : Host) (m : Memory) : List Element → List Value → Prop :=
  List.Forall₂ fun x v => Engine.eval (h.context m) x = .ok v

theorem eval_splice {array index value : Element} {a i v : Value}
    (ha : Engine.eval (h.context m) array = .ok a) (hi : Engine.eval (h.context m) index = .ok i)
    (hv : Engine.eval (h.context m) value = .ok v) :
    Engine.eval (h.context m) (.splice array index value) = .ok (spliced a i.asNumber v) := by
  simp only [Element.splice, Element.add, Element.ofNat, Engine.eval, Engine.evalAll, ha, hi, hv,
    bind, Except.bind,
    pure, Except.pure]
  rfl

theorem eval_rebuild {array value : Element} {a v : Value} {path : List Element} {is : List Value}
    (ha : Engine.eval (h.context m) array = .ok a) (hp : Evaluates h m path is)
    (hv : Engine.eval (h.context m) value = .ok v) :
    Engine.eval (h.context m) (IndexedVar.rebuild array value path) = .ok (rebuilt a v is) := by
  induction hp generalizing array a with
  | nil => exact hv
  | @cons x i path is hi _ ih =>
    refine eval_splice ha hi (ih ?_)
    rw [Engine.eval, ha, hi]
    rfl

/-- A write at a path below a location. -/
theorem acts_set (v : IndexedVar) {value : Element} (extra : List Element) {w w' : Value}
    {is : List Value} (holds : h.Holds v.location) (hp : Evaluates h m (v.path ++ extra) is)
    (hw : Engine.eval (h.context m) value = .ok w)
    (done : put h.config.maxArrayLength (h.value m v.location) w is = some w') :
    ∃ m', h.acts m (v.set value none extra) = some m' ∧ h.Updates m v.location w' m' := by
  rw [IndexedVar.set]
  generalize v.path ++ extra = path at hp
  cases hp with
  | nil =>
    obtain ⟨fits, ⟨⟩⟩ := Option.ite_none_right_eq_some.1 done
    refine ⟨m.set (h.key v.pool) v.slot w, Host.acts_one.2 (Host.write_none_iff.2 ?_), fun l' => ?_⟩
    · exact ⟨_, w, v.location.storeKey_eq h m, hw,
        Host.checkSlot_eq holds, by simpa using fits, rfl⟩
    · exact value_set h m v.location l' _
  | @cons first i rest is hi hrest =>
    obtain ⟨inside, done⟩ := Option.ite_none_left_eq_some.1 done
    obtain ⟨short, done⟩ := Option.ite_none_left_eq_some.1 done
    obtain ⟨fits, ⟨⟩⟩ := Option.ite_none_right_eq_some.1 done
    simp only [Bool.or_eq_true, Bool.not_eq_true', not_or, Bool.not_eq_true, Bool.not_eq_false]
      at inside
    have root : Engine.eval (h.context m) (v.root none) = .ok (h.value m v.location) :=
      Location.eval_root holds
    have item : Engine.eval (h.context m) (.itemAt (v.root none) first) =
        .ok (Engine.itemAt (h.value m v.location) i.asNumber) := by
      rw [Engine.eval, root, hi]
      rfl
    refine ⟨_, Host.acts_one.2 (Host.write_some_iff.2 ?_), fun l' => value_put h m v.location l' _⟩
    exact ⟨_, _, i, v.location.storeKey_eq h m, eval_rebuild item hrest hw, hi,
      Host.checkSlot_eq holds, inside.1,
      inside.2, Nat.lt_of_not_le short, fits, rfl⟩

/-- The item at the top of a stack. -/
theorem itemAt_top {v top : Value} {below : List Value} (items : v.items = below ++ [top])
    (small : v.items.length ≤ 2 ^ 53) :
    Engine.itemAt v ((Binary64.ofNat v.items.length).sub (.ofNat 1)) = top := by
  have length : v.items.length = below.length + 1 := by
    rw [items, List.length_append, List.length_singleton]
  have whole := (Binary64.isWhole_ofNat small).sub (Binary64.isWhole_ofNat (by omega))
    (by omega : 1 ≤ v.items.length)
    small
  have index := whole.toIndex_eq (by unfold Binary64.maxIndex; omega)
  rw [Engine.itemAt, if_neg (by rw [whole.not_less_zero]; exact Bool.false_ne_true), index,
    Value.item, length,
    Nat.add_sub_cancel, items]
  simp

/-- A write at a path below the top of a stack. -/
theorem acts_setTop {v : RecursiveVar} (path : v.stack.path = []) {value : Element}
    {extra : List Element} {w top : Value} {is below : List Value} (holds : h.Holds v.location)
    (hp : Evaluates h m extra is) (hw : Engine.eval (h.context m) value = .ok w)
    (items : (h.value m v.location).items = below ++ [top])
    (small : (h.value m v.location).items.length ≤ 2 ^ 53)
    (fits : (h.value m v.location).items.length ≤ h.config.maxArrayLength) :
    ∃ m', h.acts m (v.set value none extra) = some m' ∧
      h.Updates m v.location (.array (below ++ [rebuilt top w is])) m' := by
  obtain ⟨⟨name, pool, slot, inner⟩, count⟩ := v
  obtain rfl : inner = [] := path
  have root : Engine.eval (h.context m) (Location.root ⟨pool, slot⟩ none) =
    .ok (h.value m ⟨pool, slot⟩) :=
    Location.eval_root holds
  have current : Engine.eval (h.context m)
      (.itemAt (Location.root ⟨pool, slot⟩ none) (Location.top ⟨pool, slot⟩ none)) =
      .ok top := by
    rw [Engine.eval, root, Location.eval_top root]
    exact congrArg Except.ok (itemAt_top items small)
  rw [items] at small fits
  exact ⟨_,
    Host.acts_one.2 (Location.setTop_eq holds (eval_rebuild current hp hw) items small fits),
    fun l' => value_put h m ⟨pool, slot⟩ l' _⟩

/-! ## Reading behind a write -/

variable {S : Location → Prop} {T : UnitState} {κ κ' : Layout} {st st' : State}

/-- What is read behind a write to a location of a unit. -/
theorem Reads.moved (reads : Reads h S T κ st m) (apart : l ∉ T.session.classData.locations)
    (elsewhere : ∀ l', l' ≠ l → h.value m' l' = h.value m l') (world : st'.world = st.world)
    (others : ∀ l' u, l' ≠ l → κ' l' = some u → κ l' = some u ∧ u.value st' = u.value st)
    (slot : ∀ u, κ' l = some u → ¬ S l → h.value m' l = u.value st')
    (top : ∀ u, κ' l = some u → S l → ∃ below, (h.value m' l).items = below ++ [u.value st']) :
    Reads h S T κ' st' m' := by
  refine ⟨fun l' u found plain => ?_, fun l' u found stack => ?_, fun i v found => ?_,
    fun owner field v declared found => ?_⟩
  · by_cases e : l' = l
    · subst e
      exact slot u found plain
    · obtain ⟨old, same⟩ := others l' u e found
      rw [elsewhere l' e, same, reads.slot l' u old plain]
  · by_cases e : l' = l
    · subst e
      exact top u found stack
    · obtain ⟨old, same⟩ := others l' u e found
      rw [elsewhere l' e, same]
      exact reads.top l' u old stack
  · rw [elsewhere _ fun e => apart (e ▸ ClassData.fieldStack_location found), world]
    exact reads.field i v found
  · rw [elsewhere _ fun e => apart (e ▸ ClassData.static_location found), world]
    exact reads.static owner field v declared found

/-- What is read behind a write to the storage of instances. -/
theorem Reads.stored (reads : Reads h S T κ st m) (apart : κ l = none)
    (elsewhere : ∀ l', l' ≠ l → h.value m' l' = h.value m l') (boxes : st'.boxes = st.boxes)
    (field : ∀ i v, T.session.classData.fieldStacks[i]? = some v →
      if v.location = l then h.value m' l = st'.world.fields i else st'.world.fields i =
        st.world.fields i)
    (static : ∀ owner field v, owner ∈ T.session.classes.decls.map (·.name) →
      T.session.classData.statics.lookup (owner ++ "." ++ field) = some v →
      if v.location = l then h.value m' l = st'.world.statics owner field
      else st'.world.statics owner field = st.world.statics owner field) :
    Reads h S T κ st' m' := by
  have other {l' : Location} {u : Content} (found : κ l' = some u) : l' ≠ l := by
    rintro rfl
    rw [apart] at found
    cases found
  have value (u : Content) : u.value st' = u.value st := by
    cases u <;> simp only [Content.value, boxes]
  refine ⟨fun l' u found plain => ?_, fun l' u found stack => ?_, fun i v found => ?_,
    fun owner field v declared found => ?_⟩
  · rw [elsewhere l' (other found), value, reads.slot l' u found plain]
  · rw [elsewhere l' (other found), value]
    exact reads.top l' u found stack
  · have here := field i v found
    split at here
    · next e => rw [e, here]
    · next e => rw [elsewhere _ e, here, reads.field i v found]
  · have here := static owner field v declared found
    split at here
    · next e => rw [e, here]
    · next e => rw [elsewhere _ e, here, reads.static owner field v declared found]

/-! ## Agreement -/

namespace Layout

/-- The stacks that the layout knows are in reach. -/
def Within (S : Location → Prop) (κ : Layout) (Δ : List Location) :
    Prop := ∀ l u, κ l = some u → S l → l ∈ Δ

/-- A layout with one more location. -/
def add (κ : Layout) (l : Location) (u : Content) : Layout := Function.update κ l (some u)

@[simp] theorem add_here (κ : Layout) (l : Location) (u : Content) : κ.add l u l = some u :=
  Function.update_self ..

theorem add_other (κ : Layout) {l l' : Location} (other : l' ≠ l) (u : Content) :
    κ.add l u l' = κ l' :=
  Function.update_of_ne other ..

theorem le_add {u : Content} (fresh : κ l = none) : κ.Le (κ.add l u) := by
  intro l' u' found
  rw [add_other κ (by rintro rfl; rw [fresh] at found; cases found)]
  exact found

end Layout

/-- The stacks `Δ` have one item each on top of what `base` has, and there `d` calls may still be
open at once. -/
structure Stacked (h : Host) (S : Location → Prop) (T : UnitState) (base : Location → List Value)
    (d : Nat) (Δ : List Location) (m : Memory) : Prop where
  based : Based S h base Δ m
  fits : ∀ l ∈ Δ, (h.value m l).items.length + d ≤ h.config.maxArrayLength
  distinct : Δ.Nodup
  stack : ∀ l ∈ Δ, S l
  known : ∀ l ∈ Δ, l ∈ T.symbols.map Symbol.location

/-- A state and a memory agree at a place where the stacks `Δ` are in reach. -/
structure Agrees (h : Host) (S : Location → Prop) (T : UnitState) (base : Location → List Value)
    (d : Nat) (κ : Layout) (Δ : List Location) (st : State) (m : Memory) : Prop where
  reads : Reads h S T κ st m
  stackPlaces : Stacked h S T base d Δ m
  single : ∀ l l' c, κ l = some (.box c) → κ l' = some (.box c) → l = l'
  entered : ∀ l stacked n, κ l = some (.box (.entered stacked n)) → n < st.entries
  within : κ.Within S Δ
  inside : ∀ l u, κ l = some u → l ∈ T.symbols.map Symbol.location

/-- They agree for all that stays in reach. -/
def Remains (h : Host) (S : Location → Prop) (T : UnitState) (base : Location → List Value)
    (d : Nat) (κ : Layout) (Δ : List Location) (st : State) (m : Memory) : Prop :=
  ∀ κ₀ : Layout, κ₀.Le κ → κ₀.Within S Δ → Agrees h S T base d κ₀ Δ st m

@[simp] theorem State.setBox_self (st : State) (c : Box) (v : Value) :
    (st.setBox c v).boxes c = v :=
  Function.update_self ..

theorem State.setBox_other (st : State) {c c' : Box} (other : c' ≠ c) (v : Value) :
    (st.setBox c v).boxes c' = st.boxes c' := Function.update_of_ne other ..

section

variable {base : Location → List Value} {d : Nat} {Δ : List Location} {v : Value}

/-- Memories that have the same stacks. -/
theorem Stacked.congr (stackPlaces : Stacked h S T base d Δ m)
    (same : ∀ l, S l → (h.value m' l).items = (h.value m l).items) : Stacked h S T base d Δ m' :=
  ⟨stackPlaces.based.congr same, fun l mem => by
    rw [same l (stackPlaces.stack l mem)]; exact stackPlaces.fits l mem,
    stackPlaces.distinct, stackPlaces.stack, stackPlaces.known⟩

/-- A write to what is no stack. -/
theorem Stacked.plain (stackPlaces : Stacked h S T base d Δ m) (plain : ¬ S l)
    (elsewhere : ∀ l', l' ≠ l → h.value m' l' = h.value m l') : Stacked h S T base d Δ m' :=
  stackPlaces.congr fun l' stack => by rw [elsewhere l' (by rintro rfl; exact plain stack)]

end

namespace Agrees

variable {base : Location → List Value} {d : Nat} {Δ Δ' A : List Location} {c : Box} {u : Content}
  {v : Value}

theorem mono (agrees : Agrees h S T base d κ' Δ st m) (le : κ.Le κ') :
    Agrees h S T base d κ Δ st m where
  reads := agrees.reads.mono le
  stackPlaces := agrees.stackPlaces
  single l l' c found found' := agrees.single l l' c (le _ _ found) (le _ _ found')
  entered l stacked n found := agrees.entered l stacked n (le _ _ found)
  within l u found := agrees.within l u (le _ _ found)
  inside l u found := agrees.inside l u (le _ _ found)

theorem remains (agrees : Agrees h S T base d κ Δ st m) : Remains h S T base d κ Δ st m :=
  fun _ le _ => agrees.mono le

/-- A box that is entered next is not in use. -/
theorem next_free (agrees : Agrees h S T base d κ Δ st m) (stacked : Bool) (l : Location) :
    κ l ≠ some (.box (.entered stacked st.entries)) :=
  fun found => Nat.lt_irrefl _ (agrees.entered l stacked _ found)

/-- Boxes are counted on. -/
theorem later (agrees : Agrees h S T base d κ Δ st m) :
    Agrees h S T base d κ Δ { st with entries := st.entries + 1 } m where
  reads := ⟨fun l u found plain => (agrees.reads.slot l u found plain).trans (by cases u <;> rfl),
    fun l u found stack => by
      obtain ⟨below, items⟩ := agrees.reads.top l u found stack
      exact ⟨below, items.trans (by cases u <;> rfl)⟩,
    agrees.reads.field, agrees.reads.static⟩
  stackPlaces := agrees.stackPlaces
  single := agrees.single
  entered l stacked n found := Nat.lt_succ_of_lt (agrees.entered l stacked n found)
  within := agrees.within
  inside := agrees.inside

/-! ## A location that is known -/

/-- Another box keeps its value. -/
theorem setBox_other (agrees : Agrees h S T base d κ Δ st m) {l' : Location}
    (here : κ l = some (.box c)) (other : l' ≠ l) (found : κ l' = some u) :
    u.value (st.setBox c v) = u.value st := by
  cases u with
  | fixed w => rfl
  | box c' =>
    have : c' ≠ c := by
      rintro rfl
      exact other (agrees.single _ _ _ found here)
    exact st.setBox_other this v

theorem slot (ground : Ground h S T) (agrees : Agrees h S T base d κ Δ st m) (plain : ¬ S l)
    (here : κ l = some (.box c)) (updates : h.Updates m l v m') :
    Agrees h S T base d κ Δ (st.setBox c v) m' where
  reads := by
    refine agrees.reads.moved (fun stored => ground.apart l stored (agrees.inside l _ here))
      (fun l' other => updates.elsewhere other) rfl
      (fun l' u other found => ⟨found, agrees.setBox_other here other found⟩) (fun u found _ => ?_)
      fun u found stack => absurd stack plain
    obtain rfl : u = .box c := Option.some.inj (found.symm.trans here)
    rw [updates.here, Content.value, State.setBox_self]
  stackPlaces := agrees.stackPlaces.plain plain fun l' => updates.elsewhere
  single := agrees.single
  entered := agrees.entered
  within := agrees.within
  inside := agrees.inside

/-- A write to what is not known. -/
theorem elsewhere (ground : Ground h S T) (agrees : Agrees h S T base d κ Δ st m) (plain : ¬ S l)
    (mem : l ∈ T.symbols.map Symbol.location) (unknown : κ l = none)
      (updates : h.Updates m l v m') :
    Agrees h S T base d κ Δ st m' where
  reads := by
    have other {u : Content} (found : κ l = some u) : False := by
      rw [unknown] at found
      cases found
    exact agrees.reads.moved (fun stored => ground.apart l stored mem)
      (fun l' => updates.elsewhere) rfl
      (fun l' u _ found => ⟨found, rfl⟩) (fun u found => (other found).elim) fun u found =>
        (other found).elim
  stackPlaces := agrees.stackPlaces.plain plain fun l' => updates.elsewhere
  single := agrees.single
  entered := agrees.entered
  within := agrees.within
  inside := agrees.inside

theorem top (ground : Ground h S T) (agrees : Agrees h S T base d κ Δ st m) (stack : S l)
    (here : κ l = some (.box c)) {top : Value} {below : List Value}
    (items : (h.value m l).items = below ++ [top])
    (updates : h.Updates m l (.array (below ++ [v])) m') (based : Based S h base Δ m') :
    Agrees h S T base d κ Δ (st.setBox c v) m' where
  reads := by
    refine agrees.reads.moved (fun stored => ground.apart l stored (agrees.inside l _ here))
      (fun l' other => updates.elsewhere other) rfl
      (fun l' u other found => ⟨found, agrees.setBox_other here other found⟩)
        (fun u found plain => absurd stack plain)
      fun u found _ => ?_
    obtain rfl : u = .box c := Option.some.inj (found.symm.trans here)
    rw [updates.here, Content.value, State.setBox_self]
    exact ⟨below, rfl⟩
  stackPlaces := by
    refine ⟨based, fun l' mem => ?_, agrees.stackPlaces.distinct, agrees.stackPlaces.stack,
      agrees.stackPlaces.known⟩
    have fits := agrees.stackPlaces.fits l' mem
    by_cases e : l' = l
    · subst e
      rw [items] at fits
      rw [updates.here]
      simpa using fits
    · rw [updates.elsewhere e]
      exact fits
  single := agrees.single
  entered := agrees.entered
  within := agrees.within
  inside := agrees.inside

/-! ## Assignments -/

section

variable {x : Element} {xs : List Element} {t : Term} {ts : List Term}

/-- Operands have the values of their terms. -/
theorem evaluates (agrees : Agrees h S T base d κ Δ st m)
    (all : List.Forall₂ (Means h S T κ) xs ts) :
    Evaluates h m xs (evalAll st ts) := by
  induction all with
  | nil => rw [evalAll]; exact .nil
  | cons first _ ih =>
    rw [evalAll]
    exact .cons (first.value st m agrees.reads) ih

/-- A write to a variable. -/
theorem assign_slot (ground : Ground h S T) (agrees : Agrees h S T base d κ Δ st m) {v : IndexedVar}
    (whole : v.path = []) (plain : ¬ S v.location) (here : κ v.location = some (.box c))
    (single : c.stacked = false) (path : List.Forall₂ (Means h S T κ) xs ts)
    (value : Means h S T κ x t)
    (done : st.write h.config.maxArrayLength (.box c) (evalAll st ts) (t.eval st false) =
      some st') :
    ∃ m', h.acts m (v.set x none xs) = some m' ∧ Agrees h S T base d κ Δ st' m' := by
  obtain ⟨sym, mem, place⟩ := List.mem_map.1 (agrees.inside _ _ here)
  rw [State.write, if_neg (by rw [single]; exact Bool.false_ne_true)] at done
  obtain ⟨w, written, rfl⟩ := Option.map_eq_some_iff.1 done
  rw [show st.boxes c = _ from (agrees.reads.slot _ _ here plain).symm] at written
  obtain ⟨m', acts, updates⟩ := acts_set v xs (place ▸ ground.holds sym mem)
    (by rw [whole]; exact agrees.evaluates path) (value.value st m agrees.reads) written
  exact ⟨m', acts, agrees.slot ground plain here updates⟩

/-- A write to the top of a stack. -/
theorem assign_top (ground : Ground h S T) (agrees : Agrees h S T base d κ Δ st m)
    {v : RecursiveVar} (sound : v.Sound S) (here : κ v.location = some (.box c))
    (stacked : c.stacked = true) (path : List.Forall₂ (Means h S T κ) xs ts)
    (value : Means h S T κ x t)
    (done : st.write h.config.maxArrayLength (.box c) (evalAll st ts) (t.eval st false) =
      some st') :
    ∃ m', h.acts m (v.set x none xs) = some m' ∧ Agrees h S T base d κ Δ st' m' := by
  obtain ⟨sym, mem, place⟩ := List.mem_map.1 (agrees.inside _ _ here)
  rw [State.write, if_pos stacked] at done
  cases done
  obtain ⟨below, items⟩ := agrees.reads.top _ _ here sound.2
  have reach := agrees.within _ _ here sound.2
  have fits := agrees.stackPlaces.fits _ reach
  have limit := ground.limit
  obtain ⟨m', acts, updates⟩ :=
    acts_setTop sound.1 (place ▸ ground.holds sym mem) (agrees.evaluates path)
    (value.value st m agrees.reads) items (by omega) (by omega)
  -- the shape of the write keeps every stack at its height
  have writable : (Variable.recursive v).Writable S Δ := ⟨sound, reach⟩
  have set : (Variable.recursive v).setFor "" x none xs = .ok (v.set x none xs) := rfl
  have touched : TouchesAll S (v.set x none xs) Δ Δ := touches_variable writable set
  have based := touched.preserved limit acts agrees.stackPlaces.based
  exact ⟨m', acts, agrees.top ground sound.2 here items updates based⟩

/-- A write to the storage of instances. -/
theorem stored (ground : Ground h S T) (agrees : Agrees h S T base d κ Δ st m)
    (mem : l ∈ T.session.classData.locations)
    (elsewhere : ∀ l', l' ≠ l → h.value m' l' = h.value m l') (entries : st'.entries = st.entries)
    (reads : κ l = none → Reads h S T κ st' m') :
    Agrees h S T base d κ Δ st' m' where
  reads := reads <| Option.eq_none_iff_forall_ne_some.2 fun u found =>
    ground.apart l mem (agrees.inside l u found)
  stackPlaces := agrees.stackPlaces.plain (ground.accounts.storage l mem) elsewhere
  single := agrees.single
  entered l stacked n found := entries ▸ agrees.entered l stacked n found
  within := agrees.within
  inside := agrees.inside

/-- A write to a field of an instance. -/
theorem assign_field (ground : Ground h S T) (agrees : Agrees h S T base d κ Δ st m) {i : Nat}
    {stack : IndexedVar} (found : T.session.classData.fieldStacks[i]? = some stack) {y : Element}
    {u : Term} (handle : Means h S T κ y u) (path : List.Forall₂ (Means h S T κ) xs ts)
    (value : Means h S T κ x t)
    (done : st.write h.config.maxArrayLength (.field i u) (evalAll st ts) (t.eval st false) =
      some st') :
    ∃ m', h.acts m ((stack.child y).set x none xs) = some m' ∧ Agrees h S T base d κ Δ st' m' := by
  rw [State.write] at done
  obtain ⟨w, written, rfl⟩ := Option.map_eq_some_iff.1 done
  rw [← agrees.reads.field i stack found] at written
  have mem := ClassData.fieldStack_location found
  have whole := ground.whole stack (ClassData.fieldStack_mem found)
  have operands := agrees.evaluates (.cons handle path)
  rw [evalAll] at operands
  obtain ⟨m', acts, updates⟩ := acts_set (stack.child y) xs (ground.stored _ mem)
    (by rw [IndexedVar.child, whole]; exact operands) (value.value st m agrees.reads) written
  -- no other stack of fields and no static field is stored there
  refine ⟨m', acts, agrees.stored ground mem (fun l' => updates.elsewhere) rfl fun apart =>
    agrees.reads.stored apart (fun l' => updates.elsewhere) rfl (fun i' v' found' => ?_)
      fun owner field v' declared found' => ?_⟩
  · split
    · next e =>
      obtain rfl := ground.index_of_location found found' e
      exact updates.here.trans (Function.update_self i' w st.world.fields).symm
    · next other =>
      have : i' ≠ i := by
        rintro rfl
        exact other (congrArg _ (Option.some.inj (found'.symm.trans found)))
      exact Function.update_of_ne this ..
  · rw [if_neg (ground.static_ne_field found found')]
    rfl

/-- A write to a static field. -/
theorem assign_static (ground : Ground h S T) (agrees : Agrees h S T base d κ Δ st m)
    {owner field : String} {v : IndexedVar}
    (declared : owner ∈ T.session.classes.decls.map (·.name))
    (found : T.session.classData.statics.lookup (owner ++ "." ++ field) = some v)
    (path : List.Forall₂ (Means h S T κ) xs ts) (value : Means h S T κ x t)
    (done : st.write h.config.maxArrayLength (.static owner field) (evalAll st ts)
      (t.eval st false) = some st') :
    ∃ m', h.acts m (v.set x none xs) = some m' ∧ Agrees h S T base d κ Δ st' m' := by
  rw [State.write] at done
  obtain ⟨w, written, rfl⟩ := Option.map_eq_some_iff.1 done
  rw [← agrees.reads.static owner field v declared found] at written
  have mem := ClassData.static_location found
  have whole := ground.whole v (ClassData.static_mem found)
  obtain ⟨m', acts, updates⟩ := acts_set v xs (ground.stored _ mem)
    (by rw [whole]; exact agrees.evaluates path) (value.value st m agrees.reads) written
  refine ⟨m', acts, agrees.stored ground mem (fun l' => updates.elsewhere) rfl fun apart =>
    agrees.reads.stored apart (fun l' => updates.elsewhere) rfl (fun i' v' found' => ?_)
      fun owner' field' v' declared' found' => ?_⟩
  · rw [if_neg (ground.static_ne_field found' found).symm]
    rfl
  · split
    · next e =>
      obtain ⟨rfl, rfl⟩ := ground.static_of_location declared declared' found found' e
      exact updates.here.trans (if_pos ⟨rfl, rfl⟩).symm
    · next other =>
      refine if_neg ?_
      rintro ⟨rfl, rfl⟩
      exact other (congrArg _ (Option.some.inj (found'.symm.trans found)))

end

/-! ## Declarations -/

/-- A location that is known from then on, with a box that is entered. -/
theorem enter (ground : Ground h S T) (agrees : Agrees h S T base d κ Δ st m) {stacked : Bool}
    (next : c = .entered stacked st.entries) (known : l ∈ T.symbols.map Symbol.location)
    (elsewhere : ∀ l', l' ≠ l → h.value m' l' = h.value m l') (slot : ¬ S l → h.value m' l = v)
    (top : S l → ∃ below, (h.value m' l).items = below ++ [v])
    (stackPlaces : Stacked h S T base d Δ' m') (within : ∀ l' ∈ Δ, l' ∈ Δ') (here : S l → l ∈ Δ') :
    Agrees h S T base d (κ.add l (.box c)) Δ' (st.enter c v) m' := by
  have other {l' : Location} {u : Content} (ne : l' ≠ l) (found : κ.add l (.box c) l' = some u) :
      κ l' = some u := by
    rwa [κ.add_other ne] at found
  have box {u : Content} (found : κ.add l (.box c) l = some u) : u = .box c := by
    rw [κ.add_here] at found
    exact (Option.some.inj found).symm
  -- the box is entered only now, so that no other location has it
  have used {l' : Location} (ne : l' ≠ l) : κ.add l (.box c) l' ≠ some (.box c) := fun found =>
    agrees.next_free stacked l' (next ▸ other ne found)
  refine ⟨agrees.reads.moved (fun stored => ground.apart l stored known) elsewhere rfl
    (fun l' u ne found => ⟨other ne found, ?_⟩)
    (fun u found plain => ?_) (fun u found stack => ?_), stackPlaces,
      fun l' l'' c' found found' => ?_,
    fun l' stacked' n found => ?_, fun l' u found stack => ?_, fun l' u found => ?_⟩
  · cases u with
    | fixed w => rfl
    | box c' =>
      refine st.setBox_other ?_ v
      rintro rfl
      exact used ne found
  · rw [box found]
    exact (slot plain).trans (st.setBox_self c v).symm
  · rw [box found]
    obtain ⟨below, items⟩ := top stack
    exact ⟨below, items.trans (congrArg (below ++ [·]) (st.setBox_self c v).symm)⟩
  · by_cases e : l' = l <;> by_cases e' : l'' = l
    · rw [e, e']
    · subst e
      cases box found
      exact absurd found' (used e')
    · subst e'
      cases box found'
      exact absurd found (used e)
    · exact agrees.single l' l'' c' (other e found) (other e' found')
  · by_cases e : l' = l
    · subst e
      cases next.symm.trans (Content.box.inj (box found)).symm
      exact Nat.lt_succ_self _
    · exact Nat.lt_succ_of_lt (agrees.entered l' stacked' n (other e found))
  · by_cases e : l' = l
    · exact e ▸ here (e ▸ stack)
    · exact within l' (agrees.within l' u (other e found) stack)
  · by_cases e : l' = l
    · exact e ▸ known
    · exact agrees.inside l' u (other e found)

/-- A plain variable gets its first value. -/
theorem enter_slot (ground : Ground h S T) (agrees : Agrees h S T base d κ Δ st m) (plain : ¬ S l)
    (known : l ∈ T.symbols.map Symbol.location) (updates : h.Updates m l v m') :
    Agrees h S T base d (κ.add l (.box (.entered false st.entries))) Δ
      (st.enter (.entered false st.entries) v) m' := by
  exact agrees.enter ground rfl known (fun l' => updates.elsewhere) (fun _ => updates.here)
    (fun stack => absurd stack plain) (agrees.stackPlaces.plain plain fun l' => updates.elsewhere)
      (fun l' => id)
    fun stack => absurd stack plain

/-- A stack gets an item. -/
theorem push (ground : Ground h S T) (agrees : Agrees h S T base d κ Δ st m) (stack : S l)
    (fresh : l ∉ Δ) (known : l ∈ T.symbols.map Symbol.location)
    (room : (base l).length + d < h.config.maxArrayLength) {x : Element}
    (value : Engine.eval (h.context m) x = .ok v) :
    ∃ m', h.acts m [l.push x] = some m' ∧ Agrees h S T base d
      (κ.add l (.box (.entered true st.entries))) (l :: Δ)
      (st.enter (.entered true st.entries) v) m' := by
  obtain ⟨sym, mem, place⟩ := List.mem_map.1 known
  have limit := ground.limit
  -- nothing of the body is on the stack yet
  have items : (h.value m l).items = base l := by
    obtain ⟨own, items, count, -⟩ := agrees.stackPlaces.based l stack
    rw [List.count_eq_zero_of_not_mem fresh] at count
    rw [items, List.eq_nil_of_length_eq_zero count, List.append_nil]
  obtain ⟨m', acts, updates⟩ : ∃ m', h.acts m [l.push x] = some m' ∧
    h.Updates m l (.array (base l ++ [v])) m' := by
    have done :=
      Location.push_eq (m := m) (place ▸ ground.holds sym mem) value (by rw [items]; omega)
      (by rw [items]; omega)
    rw [items] at done
    exact ⟨_, Host.acts_one.2 done, fun l' => value_put h m l l' _⟩
  have based := TouchesAll.preserved limit (.cons (.push stack) .nil) acts agrees.stackPlaces.based
  have stackPlaces : Stacked h S T base d (l :: Δ) m' := by
    refine ⟨based, List.forall_mem_cons.2 ⟨?_, fun l' mem' => ?_⟩,
      List.nodup_cons.2 ⟨fresh, agrees.stackPlaces.distinct⟩,
      List.forall_mem_cons.2 ⟨stack, agrees.stackPlaces.stack⟩,
      List.forall_mem_cons.2 ⟨known, agrees.stackPlaces.known⟩⟩
    · rw [updates.here, Value.items_array, List.length_append, List.length_singleton]
      omega
    · rw [updates.elsewhere (by rintro rfl; exact fresh mem')]
      exact agrees.stackPlaces.fits l' mem'
  exact ⟨m', acts, agrees.enter ground rfl known (fun l' => updates.elsewhere)
    (fun plain => absurd stack plain)
    (fun _ => ⟨base l, by rw [updates.here]; rfl⟩) stackPlaces (fun l' => List.mem_cons_of_mem l)
    fun _ => List.mem_cons_self⟩

end Agrees

/-! ## Ways out -/

namespace Remains

variable {base : Location → List Value} {d : Nat} {Δ A : List Location}

theorem agrees (remains : Remains h S T base d κ Δ st m) (within : κ.Within S Δ) :
    Agrees h S T base d κ Δ st m :=
  remains κ (.refl κ) within

theorem mono (remains : Remains h S T base d κ' Δ st m) (le : κ.Le κ') :
    Remains h S T base d κ Δ st m :=
  fun κ₀ le₀ => remains κ₀ (le₀.trans le)

/-- A stack loses its top. -/
theorem pop (ground : Ground h S T) (remains : Remains h S T base d κ (l :: Δ) st m) :
    ∃ m', h.acts m [l.pop] = some m' ∧ Remains h S T base d κ Δ st m' := by
  have limit := ground.limit
  obtain ⟨based, fits, distinct, stack, known⟩ := (remains (fun _ => none) nofun nofun).stackPlaces
  obtain ⟨once, distinct⟩ := List.nodup_cons.1 distinct
  obtain ⟨here, stack⟩ := List.forall_mem_cons.1 stack
  obtain ⟨inside, known⟩ := List.forall_mem_cons.1 known
  obtain ⟨short, fits⟩ := List.forall_mem_cons.1 fits
  obtain ⟨sym, mem, place⟩ := List.mem_map.1 inside
  obtain ⟨m', acts, updates⟩ :
      ∃ m', h.acts m [l.pop] = some m' ∧ h.Updates m l (.array (h.value m l).items.dropLast) m' :=
    ⟨_, Host.acts_one.2 (Location.pop_eq (place ▸ ground.holds sym mem) (by omega) (by omega)),
      fun l' => value_set h m l l' _⟩
  have stackPlaces : Stacked h S T base d Δ m' := by
    refine ⟨TouchesAll.preserved limit (.cons (.pop here) .nil) acts based, fun l' mem' => ?_,
      distinct, stack, known⟩
    rw [updates.elsewhere (by rintro rfl; exact once mem')]
    exact fits l' mem'
  refine ⟨m', acts, fun κ₀ le within => ?_⟩
  have agrees :=
    remains κ₀ le fun l' u found stack' => List.mem_cons_of_mem _ (within l' u found stack')
  -- what stays in reach is elsewhere
  have other {u : Content} (found : κ₀ l = some u) : False := once (within l u found here)
  exact ⟨agrees.reads.moved (fun stored => ground.apart l stored inside)
    (fun l' => updates.elsewhere) rfl
    (fun l' u _ found => ⟨found, rfl⟩) (fun u found => (other found).elim)
      (fun u found => (other found).elim),
    stackPlaces, agrees.single, agrees.entered, within, agrees.inside⟩

/-- Stacks lose their tops. -/
theorem pops (ground : Ground h S T) (remains : Remains h S T base d κ (A ++ Δ) st m) :
    ∃ m', h.acts m (A.map Location.pop) = some m' ∧ Remains h S T base d κ Δ st m' := by
  induction A generalizing m with
  | nil => exact ⟨m, rfl, remains⟩
  | cons l A ih =>
    obtain ⟨m₁, first, remains⟩ := remains.pop ground
    obtain ⟨m', rest, remains⟩ := ih remains
    exact ⟨m', Option.bind_eq_some_iff.2 ⟨m₁, Host.acts_one.1 first, rest⟩, remains⟩

end Remains

end Meaning

end SkipCode
