import SkipCode.Proofs.Allocation

/-!
# What the storage of instances holds

The handle table, the field stacks and the static fields get their slots when they are first asked
for, from one pool, and nothing gives a slot back. Three tables say who has which: one knows its
entry by presence, one by its position, and one by a text that joins two names. The last is not
always enough (`ClassStorage.static_fields_collide`).

* `ClassStorage.asked`: a request finds its variable, or notes a new one, or is refused and changes
  nothing;
* `ClassStorage.Retains`: whatever a call does and however it ends, what was noted stays noted;
* `ClassData.key_of_slot`: variables with the same slot are noted under one key;
* `Holding.eq_of_key`: which names keep the keys apart;
* `ClassStorage.serveAll_assigns`: all of it behind every sequence of calls.
-/

namespace SkipCode

/-- What the storage of instances has a slot for. -/
inductive Holding where
  | handles
  | fieldStack (index : Nat)
  | staticField (className field : String)

/-- Under what the storage notes it. -/
inductive StorageKey where
  | handles
  | fieldStack (index : Nat)
  | joined (text : String)

namespace Holding

/-- Asks the storage for the variable. -/
def request : Holding → ClassStorage.Step IndexedVar
  | handles => ClassStorage.handleTable
  | fieldStack index => ClassStorage.fieldStack index
  | staticField className field => ClassStorage.staticField className field

def key : Holding → StorageKey
  | handles => .handles
  | fieldStack index => .fieldStack index
  | staticField className field => .joined (className ++ "." ++ field)

/-- The name of the class of a static field has no point. -/
def Dotless : Holding → Prop
  | staticField className _ => '.' ∉ className.toList
  | _ => True

/-- Where the names of classes have no point, the first point of a joined text ends the name of the
class. -/
theorem eq_of_key {a b : Holding} (plain : a.Dotless) (plain' : b.Dotless) (same : a.key = b.key) :
    a = b := by
  match a, b, same with
  | handles, handles, _ => rfl
  | fieldStack _, fieldStack _, same => exact congrArg fieldStack (StorageKey.fieldStack.inj same)
  | staticField c f, staticField c' f', same =>
    have texts : c.toList ++ '.' :: f.toList = c'.toList ++ '.' :: f'.toList := by
      simpa using congrArg String.toList (StorageKey.joined.inj same)
    have first {x : List Char} (y : List Char) (h : '.' ∉ x) :
        (x ++ '.' :: y).idxOf '.' = x.length := by
      rw [List.idxOf_append_of_notMem h, List.idxOf_cons_self, Nat.add_zero]
    have length : c.toList.length = c'.toList.length := by
      rw [← first f.toList plain, texts, first f'.toList plain']
    obtain ⟨className, rest⟩ := List.append_inj texts length
    obtain ⟨-, field⟩ := List.cons.inj rest
    rw [String.toList_inj.1 className, String.toList_inj.1 field]

end Holding

namespace ClassData

/-- The variable that is noted under a key. -/
def var? (d : ClassData) : StorageKey → Option IndexedVar
  | .handles => d.table
  | .fieldStack index => d.fieldStacks[index]?
  | .joined text => d.statics.lookup text

/-- All variables, each with its key. -/
def entries (d : ClassData) : List (StorageKey × IndexedVar) :=
  d.table.toList.map (.handles, ·) ++ d.fieldStacks.zipIdx.map (fun e => (.fieldStack e.2, e.1)) ++
    d.statics.map fun e => (.joined e.1, e.2)

/-- The variables of the storage are those of its entries. -/
theorem vars_eq (d : ClassData) : d.vars = d.entries.map (·.2) := by
  have made : d.fieldStacks.zipIdx.map (fun e => e.1) = d.fieldStacks := List.zipIdx_map_fst ..
  simp [vars, entries, Function.comp_def, made]

/-- What is looked up is an entry. -/
theorem mem_entries {d : ClassData} {key : StorageKey} {v : IndexedVar}
    (found : d.var? key = some v) :
    (key, v) ∈ d.entries := by
  rw [entries, List.mem_append, List.mem_append]
  cases key with
  | handles => exact Or.inl (Or.inl (List.mem_map_of_mem (Option.mem_toList.2 found)))
  | fieldStack index =>
    exact Or.inl
      (Or.inr (List.mem_map.2 ⟨(v, index), List.mk_mem_zipIdx_iff_getElem?.2 found, rfl⟩))
  | joined text =>
    obtain ⟨before, after, e, -⟩ := List.lookup_eq_some_iff.1 found
    exact Or.inr (List.mem_map.2 ⟨(text, v), by rw [e]; simp, rfl⟩)

/-- Where all variables have slots of their own, a slot tells the key. -/
theorem key_of_slot {d : ClassData} {key key' : StorageKey} {v w : IndexedVar}
    (distinct : (d.vars.map (·.slot)).Nodup) (found : d.var? key = some v)
    (found' : d.var? key' = some w) (same : v.slot = w.slot) : key = key' := by
  rw [vars_eq, List.map_map] at distinct
  have entry := List.inj_on_of_nodup_map distinct (mem_entries found) (mem_entries found') same
  exact congrArg Prod.fst entry

/-- Stacks are made in order, so at most the next one can be new. -/
def Admits (d : ClassData) : Holding → Prop
  | .fieldStack index => index ≤ d.fieldStacks.length
  | _ => True

/-- What is noted stays noted. -/
def Retains (d d' : ClassData) : Prop := ∀ key v, d.var? key = some v → d'.var? key = some v

end ClassData

/-- What a pool lends does not depend on an order. -/
theorem SlotPool.Lends.perm {p : SlotPool} {a b : List UInt32} (h : p.Lends a) (perm : a.Perm b) :
    p.Lends b :=
  ⟨(perm.append_right p.free).nodup h.nodup, fun slot mem =>
    h.below slot ((perm.append_right p.free).mem_iff.2 mem)⟩

namespace ClassStorage

variable {α β : Type} {s t : ClassStorage} {thing : Holding} {v : IndexedVar}

/-! ## One request -/

/-- How a request is answered. -/
inductive Asked (s : ClassStorage) (thing : Holding) :
    Except LowerError IndexedVar × ClassStorage → Prop
  | known {v : IndexedVar} : s.data.var? thing.key = some v → Asked s thing (.ok v, s)
  | made {v : IndexedVar} {t : ClassStorage} : s.data.var? thing.key = none → s.data.Admits thing →
      t.data.var? thing.key = some v → s.data.Retains t.data → Asked s thing (.ok v, t)
  | refused {owner : String} : s.data.var? thing.key = none → s.data.Admits thing →
      Asked s thing (.error (.exhausted s.pool.pool s.pool.capacity owner), s)
  | skipped {index : Nat} : thing = .fieldStack index → s.data.fieldStacks.length < index →
      Asked s thing (.error (.defect (.fieldStackSkipped index s.data.fieldStacks.length)), s)

/-- A slot is taken and noted for what had none, or there is no slot left. -/
theorem asked_make {owner : String} {f : IndexedVar → ClassData → ClassData}
    (none : s.data.var? thing.key = none) (admits : s.data.Admits thing)
    (noted : ∀ v, (f v s.data).var? thing.key = some v) (retains : ∀ v,
      s.data.Retains (f v s.data)) :
    s.Asked thing (Attempt.run (do
      let v ← allocate owner
      modifyData (f v)
      return v) s) := by
  simp only [allocate, Attempt.run_bind, Attempt.run_get, Attempt.run_lift, Attempt.run_set]
  cases taken : s.pool.allocate owner with
  | error e =>
    obtain ⟨-, -, rfl⟩ := SlotPool.allocate_error taken
    exact .refused none admits
  | ok p => exact .made none admits (noted _) (retains _)

/-- Asking for the table makes it, or finds it. -/
theorem asked_handles (s : ClassStorage) : s.Asked .handles (Attempt.run handleTable s) := by
  rw [handleTable, Attempt.run_bind, Attempt.run_get]
  dsimp only
  split
  · next v e => exact .known e
  · next e =>
    refine asked_make (f := fun v d => { d with table := some v }) e trivial (fun _ => rfl) ?_
    -- the only thing whose entry changes had none
    intro v key w found
    cases key with
    | handles => cases e.symm.trans found
    | fieldStack => exact found
    | joined => exact found

/-- So for a stack of a field. -/
theorem asked_fieldStack (s : ClassStorage) (index : Nat) :
    s.Asked (.fieldStack index) (Attempt.run (fieldStack index) s) := by
  rw [fieldStack, Attempt.run_bind, Attempt.run_get]
  dsimp only
  split
  · next v e => exact .known e
  · next e =>
    by_cases behind : s.data.fieldStacks.length < index
    · rw [if_pos behind]
      exact .skipped rfl behind
    · rw [if_neg behind]
      have last : index = s.data.fieldStacks.length := by
        have := List.getElem?_eq_none_iff.1 e
        omega
      refine asked_make (f := fun v d => { d with fieldStacks := d.fieldStacks ++ [v] }) e
        (Nat.le_of_not_lt behind) (fun v => ?_) fun v key w found => ?_
      · show (s.data.fieldStacks ++ [v])[index]? = some v
        rw [last, List.getElem?_concat_length]
      · cases key with
        | handles => exact found
        | fieldStack i =>
          show (s.data.fieldStacks ++ [v])[i]? = some w
          rw [List.getElem?_append_left (List.getElem?_eq_some_iff.1 found).1]
          exact found
        | joined => exact found

/-- So for a static field. -/
theorem asked_staticField (s : ClassStorage) (className field : String) :
    s.Asked (.staticField className field) (Attempt.run (staticField className field) s) := by
  rw [staticField, Attempt.run_bind, Attempt.run_get]
  dsimp only
  split
  · next v e => exact .known e
  · next e =>
    refine asked_make (f := fun v d => { d with statics := d.statics ++ [(_, v)] }) e trivial
      (fun v => ?_) fun v key w found => ?_
    · show (s.data.statics ++ [_]).lookup _ = some v
      rw [List.lookup_append, e]
      simp
    · cases key with
      | handles => exact found
      | fieldStack => exact found
      | joined text =>
        show (s.data.statics ++ [_]).lookup _ = some w
        rw [List.lookup_append, show s.data.statics.lookup _ = some w from found]
        rfl

/-- So for everything that the storage holds. -/
theorem asked (s : ClassStorage) (thing : Holding) :
    s.Asked thing (Attempt.run thing.request s) := by
  cases thing with
  | handles => exact s.asked_handles
  | fieldStack index => exact s.asked_fieldStack index
  | staticField className field => exact s.asked_staticField className field

/-- What has a variable gets it again. -/
theorem run_request_known (known : s.data.var? thing.key = some v) :
    Attempt.run thing.request s = (.ok v, s) := by
  generalize answered : Attempt.run thing.request s = answer
  cases answered ▸ s.asked thing with
  | known known' =>
    cases known.symm.trans known'
    rfl
  | made none => cases known.symm.trans none
  | refused none => cases known.symm.trans none
  | skipped same behind =>
    subst same
    have := (List.getElem?_eq_some_iff.1 known).1
    omega

/-- What was asked for is known from then on. -/
theorem known_of_run (h : Attempt.run thing.request s = (.ok v, t)) :
    t.data.var? thing.key = some v := by
  cases h ▸ s.asked thing with
  | known known => exact known
  | made _ _ noted => exact noted

/-- A field stack is refused as a defect exactly when one before it is missing. -/
theorem fieldStack_defect_iff (s : ClassStorage) (index : Nat) :
    (∃ e t d, Attempt.run (fieldStack index) s = (.error e, t) ∧ e.cause = .defect d) ↔
      s.data.fieldStacks.length < index := by
  have asked := s.asked_fieldStack index
  generalize Attempt.run (fieldStack index) s = answer at asked
  cases asked with
  | known known =>
    have := (List.getElem?_eq_some_iff.1 known).1
    exact ⟨fun ⟨_, _, _, h, _⟩ => (nomatch h), fun behind => by omega⟩
  | made _ admits =>
    exact ⟨fun ⟨_, _, _, h, _⟩ => (nomatch h), fun behind => absurd behind (Nat.not_lt.2 admits)⟩
  | refused _ admits =>
    refine ⟨fun ⟨e, _, _, h, cause⟩ => ?_, fun behind => absurd behind (Nat.not_lt.2 admits)⟩
    cases h
    cases cause
  | skipped same behind =>
    cases same
    exact ⟨fun _ => behind, fun _ => ⟨_, _, _, rfl, rfl⟩⟩

/-- A request that is refused changes nothing, and one that is answered forgets nothing. -/
theorem Asked.retains {answer : Except LowerError IndexedVar × ClassStorage}
    (h : s.Asked thing answer) :
    s.data.Retains answer.2.data := by
  cases h with
  | known => exact fun _ _ found => found
  | made _ _ _ retains => exact retains
  | refused => exact fun _ _ found => found
  | skipped => exact fun _ _ found => found

/-! ## Any call -/

/-- A step that forgets nothing, whatever its outcome. -/
def Retains (m : Step α) : Prop := ∀ s r t, Attempt.run m s = (r, t) → s.data.Retains t.data

namespace Retains

/-- Asking keeps what was known. -/
theorem request (thing : Holding) : Retains thing.request :=
  fun s _ _ h => (h ▸ s.asked thing).retains

/-- A result keeps it. -/
theorem pure (a : α) : Retains (Pure.pure a : Step α) := by
  rintro s r t ⟨⟩ key v found
  exact found

/-- A failure keeps it. -/
theorem lift (x : Except LowerError α) : Retains (liftM x : Step α) := by
  intro s r t h
  rw [Attempt.run_lift] at h
  cases h
  exact fun _ _ found => found

/-- So does writing actions. -/
theorem emit (actions : List Action) : Retains (ClassStorage.emit actions) := by
  rintro s r t ⟨⟩ key v found
  exact found

/-- So do two steps. -/
theorem bind {m : Step α} {f : α → Step β} (hm : Retains m) (hf : ∀ a, Retains (f a)) :
    Retains (m >>= f) := by
  intro s r t h
  rw [Attempt.run_bind] at h
  generalize first : Attempt.run m s = answer at h
  obtain ⟨x, u⟩ := answer
  cases x with
  | error e =>
    cases h
    exact hm s _ _ first
  | ok a => exact fun key v found => hf a u r t h key v (hm s _ u first key v found)

/-- So do whole computations. -/
theorem composes : Composes Step Retains := ⟨pure, bind⟩

/-- So does preparing the stacks of a class. -/
theorem prepare (layout : ClassLayout) : Retains (prepare layout) :=
  composes.forM fun index _ => .bind (.request (.fieldStack index)) fun _ => .pure _

/-- So does releasing a handle. -/
theorem release (classes : ClassTable) (className : String) (handle : Element) :
    Retains (release classes className handle) :=
  .bind (.lift _) fun layout => .bind (.prepare layout) fun _ => .bind (.lift _) fun _ =>
    .bind (composes.forIn (fun _ _ => .bind (.request (.fieldStack _)) fun _ =>
      .bind (.emit _) fun _ => .pure _) _ _) fun _ => .bind (.request .handles) fun _ => .emit _

end Retains

/-! ## Slots -/

/-- The slots of the storage are lent to it, each for one variable. -/
def Lent (s : ClassStorage) : Prop := s.pool.Lends (s.data.vars.map (·.slot))

/-- Storage that is drawn on stays lent. -/
theorem Draws.lent (h : s.Draws t) (lent : s.Lent) : t.Lent := by
  induction h with
  | keep pool data =>
    rw [Lent, pool, data]
    exact lent
  | take _ taken noted ih => exact (ih.allocate taken).perm (noted.map IndexedVar.slot).symm

/-- What is asked for is drawn in order. -/
theorem draws_request (thing : Holding) : Orders thing.request := by
  cases thing with
  | handles => exact .handleTable
  | fieldStack index => exact .fieldStack index
  | staticField className field => exact .staticField className field

end ClassStorage

/-! ## Sequences of calls -/

/-- A call to the storage of instances. -/
inductive StorageCall where
  | request (thing : Holding)
  | prepare (layout : ClassLayout)
  | release (classes : ClassTable) (className : String) (handle : Element)

namespace ClassStorage

/-- Answers a call: what is given out, and the storage behind the call, which may have failed. -/
def serve (s : ClassStorage) : StorageCall → List (Holding × IndexedVar) × ClassStorage
  | .request thing =>
    match Attempt.run thing.request s with
    | (.ok v, t) => ([(thing, v)], t)
    | (.error _, t) => ([], t)
  | .prepare layout => ([], (Attempt.run (prepare layout) s).2)
  | .release classes className handle => ([], (Attempt.run (release classes className handle) s).2)

/-- Answers one call after the other, with all that is given out. -/
def serveAll (s : ClassStorage) (calls : List StorageCall) :
    List (Holding × IndexedVar) × ClassStorage :=
  calls.foldl (fun past call => (past.1 ++ (past.2.serve call).1, (past.2.serve call).2)) ([], s)

variable {s t : ClassStorage} {thing : Holding} {v : IndexedVar}
  {given : List (Holding × IndexedVar)}

/-- The last call is served behind the others. -/
theorem serveAll_concat (s : ClassStorage) (calls : List StorageCall) (call : StorageCall) :
    s.serveAll (calls ++ [call]) =
      ((s.serveAll calls).1 ++ ((s.serveAll calls).2.serve call).1,
        ((s.serveAll calls).2.serve call).2) := by
  simp [serveAll]

/-- A call is one step on the storage, and it gives out at most what is noted then. -/
theorem serve_spec (s : ClassStorage) (call : StorageCall) :
    s.Draws (s.serve call).2 ∧ s.data.Retains (s.serve call).2.data ∧
      ∀ thing v, (thing, v) ∈ (s.serve call).1 → (s.serve call).2.data.var? thing.key = some v := by
  cases call with
  | request thing =>
    have draws := draws_request thing s
    have retains := Retains.request thing s
    have known {v t} (answered : Attempt.run thing.request s = (.ok v, t)) := known_of_run answered
    rw [serve]
    split
    · next v t answered =>
      refine ⟨draws _ _ answered, retains _ _ answered, fun thing' v' mem => ?_⟩
      cases List.mem_singleton.1 mem
      exact known answered
    · next e t answered => exact ⟨draws _ _ answered, retains _ _ answered, nofun⟩
  | prepare layout =>
    exact ⟨Orders.prepare layout s _ _ rfl, Retains.prepare layout s _ _ rfl, nofun⟩
  | release classes className handle =>
    exact ⟨Orders.release classes className handle s _ _ rfl,
      Retains.release classes className handle s _ _ rfl, nofun⟩

/-- What every call keeps. -/
structure Holds (given : List (Holding × IndexedVar)) (s : ClassStorage) : Prop where
  lent : s.Lent
  noted : ∀ thing v, (thing, v) ∈ given → s.data.var? thing.key = some v

/-- Serving a call adds what it gives. -/
theorem Holds.served (h : s.Holds given) (call : StorageCall) :
    (s.serve call).2.Holds (given ++ (s.serve call).1) := by
  obtain ⟨draws, retains, known⟩ := s.serve_spec call
  refine ⟨draws.lent h.lent, fun thing v mem => ?_⟩
  rcases List.mem_append.1 mem with before | now
  · exact retains _ _ (h.noted thing v before)
  · exact known thing v now

/-- So does serving many. -/
theorem Holds.servedAll (h : s.Holds given) (calls : List StorageCall) :
    (s.serveAll calls).2.Holds (given ++ (s.serveAll calls).1) := by
  induction calls using List.reverseRecOn with
  | nil =>
    rw [serveAll, List.foldl_nil, List.append_nil]
    exact h
  | append_singleton calls call ih =>
    rw [serveAll_concat, ← List.append_assoc]
    exact ih.served call

/-- What was given out, and how a storage stands behind it. -/
structure Assigns (given : List (Holding × IndexedVar)) (s : ClassStorage) : Prop where
  /-- Whatever is called then, and whether or not it fails, who asks again for a thing gets the
  variable that was given out for it, and nothing changes. -/
  again : ∀ thing v, (thing, v) ∈ given → ∀ later,
    Attempt.run thing.request (s.serveAll later).2 = (.ok v, (s.serveAll later).2)
  /-- Different things have different slots where the names of classes have no point. -/
  apart : ∀ a v b w, (a, v) ∈ given → (b, w) ∈ given → a.Dotless → b.Dotless → a ≠ b →
    v.slot ≠ w.slot
  /-- Whatever the names are, a slot is shared exactly by what has one key, which can only be two
  static fields. -/
  shared : ∀ a v b w, (a, v) ∈ given → (b, w) ∈ given → (v.slot = w.slot ↔ a.key = b.key)
  /-- A field stack is refused as a defect exactly when it is behind the next one to be made. -/
  skipped : ∀ index,
    (∃ e t d, Attempt.run (fieldStack index) s = (.error e, t) ∧ e.cause = .defect d) ↔
      s.data.fieldStacks.length < index

/-- What was given is assigned once and for all. -/
theorem Holds.assigns (h : s.Holds given) : Assigns given s := by
  have shared (a v b w) (mem : (a, v) ∈ given) (mem' : (b, w) ∈ given) :
      v.slot = w.slot ↔ a.key = b.key := by
    have found := h.noted a v mem
    have found' := h.noted b w mem'
    constructor
    · exact ClassData.key_of_slot (List.nodup_append.1 h.lent.nodup).1 found found'
    · intro same
      rw [same, found'] at found
      cases found
      rfl
  refine ⟨fun thing v mem later => ?_, fun a v b w mem mem' plain plain' different same =>
    ?_, shared,
    s.fieldStack_defect_iff⟩
  · exact run_request_known ((h.servedAll later).noted thing v (List.mem_append_left _ mem))
  · exact different (Holding.eq_of_key plain plain' ((shared a v b w mem mem').1 same))

/-- A pool lends nothing to who has not asked yet. -/
theorem lends_served (pool : Pool) (capacity : UInt32) (reuse : Bool) (earlier : List PoolCall) :
    ((SlotPool.new pool capacity reuse).serveAll earlier).2.Lends [] := by
  have tracks := (SlotPool.follows_serveAll pool capacity reuse earlier).tracks
  refine ⟨tracks.ascending.imp UInt32.ne_of_lt, fun slot mem => ((tracks.mem_free slot).1 mem).1⟩

/-- A storage that has nothing yet, with a pool that may have been used before. -/
def fresh (capacity : UInt32) (reuse : Bool) (earlier : List PoolCall) (list : ActionList) :
    ClassStorage :=
  ⟨.empty, ((SlotPool.new .global capacity reuse).serveAll earlier).2, list⟩

/-- Behind every sequence of calls, failing ones among them, whatever was given out stays what it
is, and different things have different slots unless the names of a class and of its field are
joined to the same text as others. -/
theorem serveAll_assigns (capacity : UInt32) (reuse : Bool) (earlier : List PoolCall)
    (list : ActionList) (calls : List StorageCall) :
    Assigns ((fresh capacity reuse earlier list).serveAll calls).1
      ((fresh capacity reuse earlier list).serveAll calls).2 := by
  have start : (fresh capacity reuse earlier list).Holds [] :=
    ⟨lends_served .global capacity reuse earlier, nofun⟩
  exact (start.servedAll calls).assigns

/-- Two static fields, of two classes, are given the same slot. -/
theorem static_fields_collide : ∃ v w,
    (Holding.staticField "A.b" "c", v) ∈ ((fresh 9 false [] .empty).serveAll
      [.request (.staticField "A.b" "c"), .request (.staticField "A" "b.c")]).1 ∧
    (Holding.staticField "A" "b.c", w) ∈ ((fresh 9 false [] .empty).serveAll
      [.request (.staticField "A.b" "c"), .request (.staticField "A" "b.c")]).1 ∧
    Holding.staticField "A.b" "c" ≠ .staticField "A" "b.c" ∧ v.slot = w.slot :=
  ⟨.plain "A.b.c" .global 0, .plain "A.b.c" .global 0, List.mem_cons_self,
    List.mem_cons_of_mem _ List.mem_cons_self, by simp, rfl⟩

end ClassStorage

end SkipCode
