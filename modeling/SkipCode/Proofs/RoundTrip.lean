import SkipCode.Proofs.Readers

/-!
# The binary form of an image is read back

Elements and stores contain each other, so what is said of them is shown by one induction on both.
All that a unit has besides is put together from `Proofs.Readers`.

* `reads_elementWithin`: an element is read back with any fuel that its bytes do not exceed;
* `carries_elementWithin`: more fuel and more bytes behind an element change nothing of what is
  read;
* `Image.ofBytes?_toBytes`: an image is read back from its bytes, whatever follows them, and from no
  part of them.
-/

namespace SkipCode.Decoding

open Encoding (Writer)

variable {α : Type} {limit : Nat}

/-! ## Operators -/

/-- Operators of arithmetic are read in the same way, whatever follows. -/
theorem carries_arithmeticOp : Carries arithmeticOp arithmeticOp := by
  intro bytes op rest more found
  obtain ⟨⟨n, middle⟩, chosen, found⟩ := Option.bind_eq_some_iff.1 found
  refine Option.bind_eq_some_iff.2 ⟨_, carries_choice _ _ _ more chosen, ?_⟩
  dsimp only at found ⊢
  split at found <;> cases found <;> rfl

/-- Operators of arithmetic are read back. -/
theorem reads_arithmeticOp (op : ArithmeticOp) :
    Reads limit arithmeticOp (Encoding.choice (Encoding.arithmeticOp op)) op :=
  ⟨lt_length_varint 4 _, fun _ _ => by cases op <;> rfl⟩

/-- So are comparisons. -/
theorem carries_comparison : Carries comparison comparison := by
  intro bytes op rest more found
  obtain ⟨⟨n, middle⟩, chosen, found⟩ := Option.bind_eq_some_iff.1 found
  refine Option.bind_eq_some_iff.2 ⟨_, carries_choice _ _ _ more chosen, ?_⟩
  dsimp only at found ⊢
  split at found <;> cases found <;> rfl

/-- Comparisons are read back. -/
theorem reads_comparison (op : Comparison) :
    Reads limit comparison (Encoding.choice (Encoding.comparison op)) op :=
  ⟨lt_length_varint 4 _, fun _ _ => by cases op <;> rfl⟩

/-! ## Elements -/

/-- So are stores, if elements are. -/
theorem carries_store {element element' : Reader Element} (h : Carries element element') :
    Carries (store element) (store element') := by
  intro bytes st rest more found
  obtain ⟨⟨n, middle⟩, chosen, found⟩ := Option.bind_eq_some_iff.1 found
  refine Option.bind_eq_some_iff.2 ⟨_, carries_choice _ _ _ more chosen, ?_⟩
  dsimp only at found ⊢
  split at found
  · cases found
    rfl
  · exact h.map Store.actor _ _ _ more found
  · cases found

/-- So are two elements. -/
theorem carries_two {element element' : Reader Element} (h : Carries element element')
    (build : Element → Element → Element) : Carries (two element build) (two element' build) :=
  h.bind fun a => h.bind fun b => .pure (build a b)

/-- More fuel reads what less fuel reads, whatever follows. -/
theorem carries_elementWithin {fuel fuel' : Nat} (le : fuel ≤ fuel') :
    Carries (elementWithin fuel) (elementWithin fuel') := by
  induction fuel generalizing fuel' with
  | zero => exact nofun
  | succ fuel ih =>
    obtain ⟨fuel', rfl⟩ : ∃ k, fuel' = k + 1 := ⟨fuel' - 1, by omega⟩
    have inner : Carries (elementWithin fuel) (elementWithin fuel') := ih (by omega)
    intro bytes e rest more found
    rw [elementWithin] at found ⊢
    obtain ⟨⟨n, middle⟩, chosen, found⟩ := Option.bind_eq_some_iff.1 found
    refine Option.bind_eq_some_iff.2 ⟨_, carries_choice _ _ _ more chosen, ?_⟩
    dsimp only at found ⊢
    -- one case for every choice, and one for the numbers that are none
    split at found
    · exact carries_number.map Element.number _ _ _ more found
    · exact carries_bool.map Element.bool _ _ _ more found
    · exact (carries_list inner).map Element.array _ _ _ more found
    · exact ((carries_store inner).bind fun st => carries_word.bind fun slot =>
        .pure (Element.variable st slot)) _ _ _ more found
    · exact carries_two inner .itemAt _ _ _ more found
    · exact inner.map Element.countOf _ _ _ more found
    · exact inner.map Element.lastOf _ _ _ more found
    · exact carries_two inner .append _ _ _ more found
    · exact (inner.bind fun array => inner.bind fun start => inner.bind fun count =>
        .pure (Element.slice array start count)) _ _ _ more found
    · exact carries_two inner .indexOf _ _ _ more found
    · exact (carries_arithmeticOp.bind fun op => carries_two inner (.arithmetic op)) _ _ _
        more found
    · exact (inner.bind fun lhs => carries_comparison.bind fun op => inner.bind fun rhs =>
        .pure (Element.compare lhs op rhs)) _ _ _ more found
    · exact carries_two inner .and _ _ _ more found
    · exact carries_two inner .or _ _ _ more found
    · exact inner.map Element.not _ _ _ more found
    · cases found
      rfl
    · cases found

/-- Behind more bytes an element is read with more fuel. -/
theorem carries_element : Carries element element := by
  intro bytes e rest more found
  exact carries_elementWithin (by rw [List.length_append]; omega) _ _ _ more found

/-- What is read back below a limit is read back below a smaller one. -/
theorem Reads.weaken {read : Reader α} {write : Writer} {a : α} {more : Nat} (le : limit ≤ more)
    (h : Reads more read write a) : Reads limit read write a :=
  ⟨h.longer, fun rest fits => h.back rest (by omega)⟩

/-- With no bytes to read nothing is to be read back. -/
theorem Reads.zero {read : Reader α} {write : Writer} {a : α}
    (longer : ∀ rest, rest.length < (write rest).length) : Reads 0 read write a :=
  ⟨longer, fun rest le => absurd (longer rest) (Nat.not_lt.2 le)⟩

/-- A choice takes one byte of what may be written. -/
theorem Reads.chosen {read read' : Reader α} {write write' : Writer} {a : α} (n : Nat)
    (small : n < 128) (fields : Reads limit read write a)
    (written : ∀ rest, write' rest = Encoding.choice n (write rest))
    (same : ∀ bytes, read' (Encoding.choice n bytes) = read bytes) :
    Reads (limit + 1) read' write' a := by
  have one rest : write' rest = UInt8.ofNat n :: write rest := by
    rw [written, Encoding.choice, Encoding.varint, if_pos small]
  refine ⟨fun rest => ?_, fun rest fits => ?_⟩
  · rw [one]
    exact Nat.lt_succ_of_lt (fields.longer rest)
  · rw [one, List.length_cons] at fits
    rw [written, same, fields.back rest (by omega)]

/-- The global store is read back. -/
theorem reads_global {element : Reader Element} :
    Reads limit (store element) (Encoding.store .global) .global := by
  constructor <;> intro rest <;> rw [Encoding.store]
  · exact lt_length_varint 4 0 rest
  · exact fun _ => rfl

/-- An actor's store is read back with its actor. -/
theorem reads_actor {element : Reader Element} {who : Element}
    (h : Reads limit element (Encoding.element who) who) :
    Reads limit (store element) (Encoding.store (.actor who)) (.actor who) :=
  (Reads.chosen 1 (by decide) (h.map Store.actor) (fun _ => by rw [Encoding.store])
    (fun _ => rfl)).weaken (Nat.le_succ limit)

section Fields

variable {element : Reader Element} {write write' write'' : Writer} {a b c : Element}

/-- Two elements are read back one after the other. -/
theorem reads_two (build : Element → Element → Element) (first : Reads limit element write a)
    (second : Reads limit element write' b) :
    Reads limit (two element build) (fun rest => write (write' rest)) (build a b) :=
  first.bind (k := fun a => element.bind fun b => .pure (build a b)) (second.yield (build a))

/-- So are the three of a slice. -/
theorem reads_slice (first : Reads limit element write a) (second : Reads limit element write' b)
    (third : Reads limit element write'' c) :
    Reads limit
      (element.bind fun a => element.bind fun b => element.bind fun c =>
        .pure (Element.slice a b c))
      (fun rest => write (write' (write'' rest))) (.slice a b c) :=
  first.bind (k := fun a => element.bind fun b => element.bind fun c => .pure (Element.slice a b c))
    (second.bind (k := fun b => element.bind fun c => .pure (Element.slice a b c))
      (third.yield (Element.slice a b)))

/-- So are a comparison's. -/
theorem reads_compare (op : Comparison) (first : Reads limit element write a)
    (second : Reads limit element write' b) :
    Reads limit
      (element.bind fun a => comparison.bind fun op => element.bind fun b =>
        .pure (Element.compare a op b))
      (fun rest => write (Encoding.choice (Encoding.comparison op) (write' rest)))
      (.compare a op b) :=
  first.bind (k := fun a => comparison.bind fun op => element.bind fun b =>
    .pure (Element.compare a op b))
    ((reads_comparison op).bind (k := fun op => element.bind fun b =>
      .pure (Element.compare a op b))
      (second.yield (Element.compare a op)))

end Fields

/-- The fuel of an element is one more than that of its fields, and its number takes one byte. -/
theorem reads_level {e : Element} {write : Writer} {fields : Nat → Reader Element} (n : Nat)
    (small : n < 128) (inner : ∀ fuel, fuel < 2 ^ 64 → Reads fuel (fields fuel) write e)
    (written : ∀ rest, Encoding.element e rest = Encoding.choice n (write rest))
    (same : ∀ fuel bytes, elementWithin (fuel + 1) (Encoding.choice n bytes) = fields fuel bytes)
    (fuel : Nat) (fits : fuel < 2 ^ 64) :
    Reads fuel (elementWithin fuel) (Encoding.element e) e := by
  cases fuel with
  | zero => exact .zero (Reads.chosen n small (inner 0 fits) written (same 0)).longer
  | succ fuel => exact .chosen n small (inner fuel (by omega)) written (same fuel)

/-- Elements are written as items are. -/
theorem elements_eq_items (es : List Element) (rest : List UInt8) :
    Encoding.elements es rest = Encoding.items Encoding.element es rest := by
  induction es with
  | nil => rfl
  | cons e es ih => rw [Encoding.elements, Encoding.items, ih]

mutual

/-- An element is read back with any fuel that its bytes do not exceed. -/
theorem reads_elementWithin : (e : Element) → (fuel : Nat) → fuel < 2 ^ 64 →
    Reads fuel (elementWithin fuel) (Encoding.element e) e
  | .number x =>
    reads_level 0 (by decide) (fun _ _ => (reads_number x).map Element.number)
      (fun _ => by rw [Encoding.element]) (fun _ _ => rfl)
  | .bool b =>
    reads_level 1 (by decide) (fun _ _ => (reads_bool b).map Element.bool)
      (fun _ => by rw [Encoding.element]) (fun _ _ => rfl)
  | .array es =>
    reads_level 2 (by decide)
      (fun fuel fits => (reads_list fits (reads_elements es fuel fits)).map Element.array)
      (fun rest => by rw [Encoding.element, elements_eq_items]; rfl) (fun _ _ => rfl)
  | .variable st slot =>
    reads_level 3 (by decide)
      (fun fuel fits => (reads_storeWithin st fuel fits).bind
        (k := fun st => word.bind fun slot => .pure (Element.variable st slot))
        ((reads_word slot).yield (Element.variable st)))
      (fun _ => by rw [Encoding.element]) (fun _ _ => rfl)
  | .itemAt array index =>
    reads_level 4 (by decide)
      (fun fuel fits => reads_two .itemAt (reads_elementWithin array fuel fits)
        (reads_elementWithin index fuel fits))
      (fun _ => by rw [Encoding.element]) (fun _ _ => rfl)
  | .countOf inner =>
    reads_level 5 (by decide) (fun fuel fits =>
      (reads_elementWithin inner fuel fits).map Element.countOf)
      (fun _ => by rw [Encoding.element]) (fun _ _ => rfl)
  | .lastOf inner =>
    reads_level 6 (by decide) (fun fuel fits =>
      (reads_elementWithin inner fuel fits).map Element.lastOf)
      (fun _ => by rw [Encoding.element]) (fun _ _ => rfl)
  | .append array value =>
    reads_level 7 (by decide)
      (fun fuel fits => reads_two .append (reads_elementWithin array fuel fits)
        (reads_elementWithin value fuel fits))
      (fun _ => by rw [Encoding.element]) (fun _ _ => rfl)
  | .slice array start count =>
    reads_level 8 (by decide)
      (fun fuel fits => reads_slice (reads_elementWithin array fuel fits)
        (reads_elementWithin start fuel fits) (reads_elementWithin count fuel fits))
      (fun _ => by rw [Encoding.element]) (fun _ _ => rfl)
  | .indexOf array value =>
    reads_level 9 (by decide)
      (fun fuel fits => reads_two .indexOf (reads_elementWithin array fuel fits)
        (reads_elementWithin value fuel fits))
      (fun _ => by rw [Encoding.element]) (fun _ _ => rfl)
  | .arithmetic op lhs rhs =>
    reads_level 10 (by decide)
      (fun fuel fits => (reads_arithmeticOp op).bind
        (k := fun op => two (elementWithin fuel) (.arithmetic op))
        (reads_two (.arithmetic op) (reads_elementWithin lhs fuel fits)
          (reads_elementWithin rhs fuel fits)))
      (fun _ => by rw [Encoding.element]) (fun _ _ => rfl)
  | .compare lhs op rhs =>
    reads_level 11 (by decide)
      (fun fuel fits => reads_compare op (reads_elementWithin lhs fuel fits)
        (reads_elementWithin rhs fuel fits))
      (fun _ => by rw [Encoding.element]) (fun _ _ => rfl)
  | .and lhs rhs =>
    reads_level 12 (by decide)
      (fun fuel fits => reads_two .and (reads_elementWithin lhs fuel fits)
        (reads_elementWithin rhs fuel fits))
      (fun _ => by rw [Encoding.element]) (fun _ _ => rfl)
  | .or lhs rhs =>
    reads_level 13 (by decide)
      (fun fuel fits => reads_two .or (reads_elementWithin lhs fuel fits)
        (reads_elementWithin rhs fuel fits))
      (fun _ => by rw [Encoding.element]) (fun _ _ => rfl)
  | .not inner =>
    reads_level 14 (by decide) (fun fuel fits =>
      (reads_elementWithin inner fuel fits).map Element.not)
      (fun _ => by rw [Encoding.element]) (fun _ _ => rfl)
  | .eventPlayer => fun fuel _ => by
    -- it has no parts, so that its byte is longer than nothing is all there is to show
    have longer : ∀ rest, _ < (Encoding.element .eventPlayer rest).length := fun rest => by
      rw [Encoding.element]
      exact lt_length_varint 4 15 rest
    cases fuel with
    | zero => exact .zero longer
    | succ fuel => exact ⟨longer, fun rest _ => by rw [Encoding.element]; rfl⟩

/-- Elements are read back with fuel for their length, by induction on the list. -/
theorem reads_elements : (es : List Element) → (fuel : Nat) → fuel < 2 ^ 64 →
    ∀ e ∈ es, Reads fuel (elementWithin fuel) (Encoding.element e) e
  | [], _, _ => nofun
  | e :: es, fuel, fits => List.forall_mem_cons.2
    ⟨reads_elementWithin e fuel fits, reads_elements es fuel fits⟩

/-- So is a store. -/
theorem reads_storeWithin : (st : Store) → (fuel : Nat) → fuel < 2 ^ 64 →
    Reads fuel (store (elementWithin fuel)) (Encoding.store st) st
  | .global, _, _ => reads_global
  | .actor who, fuel, fits => reads_actor (reads_elementWithin who fuel fits)

end

/-! ## Units -/

/-- An element is read with more fuel than its own bytes need, since what follows counts too. -/
theorem reads_element (e : Element) (fits : limit < 2 ^ 64) :
    Reads limit element (Encoding.element e) e := by
  have longer := (reads_elementWithin e 0 (by decide)).longer
  refine ⟨longer, fun rest le => ?_⟩
  -- the fuel of its own bytes is enough, and more of it does no harm
  have own :=
    (reads_elementWithin e ((Encoding.element e rest).length - rest.length) (by omega)).back
    rest (by omega)
  have enough : (Encoding.element e rest).length - rest.length
      ≤ (Encoding.element e rest).length + 1 := by omega
  have more := carries_elementWithin enough _ _ _ [] own
  rwa [List.append_nil, List.append_nil] at more

/-- A store is read back, whatever follows it. -/
theorem reads_store (st : Store) (fits : limit < 2 ^ 64) :
    Reads limit (store element) (Encoding.store st) st := by
  cases st with
  | global => exact reads_global
  | actor who => exact reads_actor (reads_element who fits)

/-- An action is read in the same way, whatever follows. -/
theorem carries_action : Carries action action := by
  intro bytes a rest more found
  obtain ⟨⟨n, middle⟩, chosen, found⟩ := Option.bind_eq_some_iff.1 found
  refine Option.bind_eq_some_iff.2 ⟨_, carries_choice _ _ _ more chosen, ?_⟩
  dsimp only at found ⊢
  split at found
  · exact ((carries_store carries_element).bind fun st => carries_word.bind fun slot =>
      (carries_option carries_element).bind fun index => carries_element.bind fun value =>
        .pure (Action.set st slot index value)) _ _ _ more found
  · exact (carries_element.bind fun condition => (carries_option carries_signed).bind fun count =>
      .pure (Action.skipIf condition count)) _ _ _ more found
  · exact (carries_option carries_signed).map Action.skip _ _ _ more found
  · cases found
    rfl
  · cases found

/-- A count that may be missing is read back. -/
theorem reads_count (count : Option Int32) :
    Reads limit (option signed) (Encoding.option Encoding.signed count) count :=
  reads_option count fun n _ => reads_signed n

/-- An action is read back. -/
theorem reads_action (a : Action) (fits : limit < 2 ^ 64) :
    Reads limit action (Encoding.action a) a := by
  cases a with
  | set st slot index value =>
    -- from the last field to the first, each reader is put before those of the fields behind it
    have last := (reads_element value fits).yield (Action.set st slot index)
    have fields := (reads_store st fits).bind
      (k := fun st => word.bind fun slot => (option element).bind fun index =>
        element.bind fun value => .pure (Action.set st slot index value))
      ((reads_word slot).bind
        (k := fun slot => (option element).bind fun index =>
          element.bind fun value => .pure (Action.set st slot index value))
        ((reads_option index fun e _ => reads_element e fits).bind
          (k := fun index => element.bind fun value =>
            .pure (Action.set st slot index value)) last))
    exact (fields.chosen 0 (by decide) (fun _ => rfl) (fun _ => rfl)).weaken (Nat.le_succ limit)
  | skipIf condition count =>
    have fields := (reads_element condition fits).bind
      (k := fun condition => (option signed).bind fun count =>
        .pure (Action.skipIf condition count))
      ((reads_count count).yield (Action.skipIf condition))
    exact (fields.chosen 1 (by decide) (fun _ => rfl) (fun _ => rfl)).weaken (Nat.le_succ limit)
  | skip count =>
    exact (((reads_count count).map Action.skip).chosen 2 (by decide) (fun _ => rfl)
      (fun _ => rfl)).weaken (Nat.le_succ limit)
  | abort => exact ⟨lt_length_varint 4 3, fun _ _ => rfl⟩

/-- So is a list of actions. -/
theorem carries_actionList : Carries actionList actionList :=
  (carries_list carries_action).map ActionList.ofList

/-- A list of actions is read back. -/
theorem reads_actionList (l : ActionList) (fits : limit < 2 ^ 64) :
    Reads limit actionList (Encoding.actionList l) l :=
  (reads_list fits fun a _ => reads_action a fits).map ActionList.ofList

/-- So is a unit. -/
theorem carries_unit : Carries unit unit :=
  carries_text.bind fun name => carries_actionList.bind fun l => .pure (name, l)

/-- A unit is read back with its name. -/
theorem reads_unit (u : String × ActionList) (fits : limit < 2 ^ 64) :
    Reads limit unit (Encoding.unit u) u :=
  (reads_text u.1 fits).bind (k := fun name => actionList.bind fun l => .pure (name, l))
    ((reads_actionList u.2 fits).yield (Prod.mk u.1))

/-- So is a whole image. -/
theorem carries_image : Carries image image :=
  (carries_list carries_unit).map (Image.insertAll .empty)

/-- Units with names of their own keep their places. -/
theorem reads_image (i : Image) (distinct : i.names.Nodup) (fits : limit < 2 ^ 64) :
    Reads limit image (Encoding.image i) i := by
  have units : (Image.insertAll .empty i.units).units = i.units := Image.insertAll_units distinct
  have same : Image.insertAll .empty i.units = i := congrArg Image.mk units
  have read : Reads limit image (Encoding.image i) _ :=
    (reads_list fits fun u _ => reads_unit u fits).map (Image.insertAll .empty)
  rwa [same] at read

end SkipCode.Decoding

namespace SkipCode.Image

open Decoding (carries_image reads_image)

/-- Bytes that were written are read as the image they were written from, whatever follows them.
What is read from a part of them could be read from all of them too, and would leave bytes behind.
-/
theorem ofBytes?_toBytes (i : Image) (distinct : i.names.Nodup) (fits : i.toBytes.length < 2 ^ 64) :
    ofBytes? i.toBytes = some i ∧ (∀ rest, ofBytes? (i.toBytes ++ rest) = some i) ∧
      ∀ front, front <+: i.toBytes → front ≠ i.toBytes → ofBytes? front = none := by
  have whole : Decoding.image i.toBytes = some (i, []) :=
    (reads_image i distinct fits).back [] (Nat.le_add_left ..)
  have followed rest : Decoding.image (i.toBytes ++ rest) = some (i, rest) :=
    carries_image _ _ _ rest whole
  refine ⟨congrArg (Option.map Prod.fst) whole, fun rest =>
    congrArg (Option.map Prod.fst) (followed rest), fun front ⟨more, split⟩ strict => ?_⟩
  -- a part that is read would be read with the rest behind it too, and the rest left over
  refine Option.map_eq_none_iff.2 (Option.eq_none_iff_forall_ne_some.2 fun ⟨j, left⟩ early => ?_)
  have late := carries_image _ _ _ more early
  rw [split, whole] at late
  have nothing : left ++ more = [] := (congrArg Prod.snd (Option.some.inj late)).symm
  rw [(List.append_eq_nil_iff.1 nothing).2, List.append_nil] at split
  exact strict split

/-- Two units, the first with a skip that waits for its count, the second with a write to the slot
of an actor and a number that is none. -/
def twoUnits : Image :=
  ⟨[("é", .ofList [.skipIf (.not (.bool true)) none, .skip (some (-2)), .abort]),
    ("", .ofList [.set (.actor (.itemAt (.array [.eventPlayer]) (.variable .global 300))) 4294967295
      (some (.compare (.bool false) .lessEqual .eventPlayer)) (.number ⟨0x7ff0000000000001⟩)])]⟩

/-- An image of two units is read back, and no part of it is an image. -/
theorem ofBytes?_twoUnits :
    ofBytes? twoUnits.toBytes = some twoUnits ∧
      (∀ rest, ofBytes? (twoUnits.toBytes ++ rest) = some twoUnits) ∧
      ∀ front, front <+: twoUnits.toBytes → front ≠ twoUnits.toBytes → ofBytes? front = none :=
  ofBytes?_toBytes twoUnits (by decide) (by decide +kernel)

end SkipCode.Image
