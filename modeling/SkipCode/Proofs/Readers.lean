import SkipCode.Image.Decoding
import SkipCode.Image.Encoding

/-!
# Readers and writers of the binary form

Two things are said of the parts of the binary form, from numbers up to lists and texts.

* `Reads`: a reader gives back what a writer wrote, and leaves the bytes behind it;
* `Carries`: what a reader reads from some bytes it reads also when more of them follow, and leaves
  those. With `Reads` it says that no part of what was written can be read without its end.

Both go through readers that are put together. `Carries` is about two readers, since a reader of
elements has the more fuel the longer its input is; for the same reason `Reads` has a limit on what
was written.
-/

namespace SkipCode.Decoding

open Encoding (Writer)

variable {α β : Type} {limit : Nat}

/-- A writer puts something in front of any bytes, and a reader gives the value back from it as long
as that takes no more bytes than the limit. -/
structure Reads (limit : Nat) (read : Reader α) (write : Writer) (a : α) : Prop where
  longer : ∀ rest, rest.length < (write rest).length
  back : ∀ rest, (write rest).length ≤ rest.length + limit → read (write rest) = some (a, rest)

/-- What one reader reads the other reads too, whatever follows, and leaves what follows. -/
def Carries (read read' : Reader α) : Prop :=
  ∀ bytes a rest more, read bytes = some (a, rest) → read' (bytes ++ more) = some (a, rest ++ more)

/-! ## What is put together -/

/-- Takes no bytes. -/
def Reader.pure (a : α) : Reader α := fun bytes => some (a, bytes)

/-- One reader, then the other on what is left. -/
def Reader.bind (read : Reader α) (k : α → Reader β) : Reader β :=
  fun bytes => (read bytes).bind fun found => k found.1 found.2

def Reader.map (f : α → β) (read : Reader α) : Reader β :=
  fun bytes => (read bytes).map fun found => (f found.1, found.2)

namespace Carries

variable {read read' : Reader α} {k k' : α → Reader β}

theorem pure (a : α) : Carries (Reader.pure a) (Reader.pure a) := by
  intro bytes b rest more h
  cases h
  rfl

/-- Readers that only look at a beginning do so together. -/
theorem bind (first : Carries read read') (second : ∀ a, Carries (k a) (k' a)) :
    Carries (read.bind k) (read'.bind k') := by
  intro bytes b rest more h
  obtain ⟨⟨a, middle⟩, h₁, h₂⟩ := Option.bind_eq_some_iff.1 h
  exact Option.bind_eq_some_iff.2 ⟨_, first _ _ _ more h₁, second a _ _ _ more h₂⟩

/-- What is made of something that is read is read with it. -/
theorem map (f : α → β) (h : Carries read read') : Carries (read.map f) (read'.map f) := by
  intro bytes b rest more found
  obtain ⟨⟨a, rest⟩, h₁, e⟩ := Option.map_eq_some_iff.1 found
  cases e
  exact Option.map_eq_some_iff.2 ⟨_, h _ _ _ more h₁, rfl⟩

end Carries

namespace Reads

variable {read : Reader α} {k : α → Reader β} {write write' : Writer} {a : α} {b : β}

/-- What was written one behind the other is read one behind the other. -/
theorem bind (first : Reads limit read write a) (second : Reads limit (k a) write' b) :
    Reads limit (read.bind k) (fun rest => write (write' rest)) b := by
  refine ⟨fun rest => Nat.lt_trans (second.longer rest) (first.longer _), fun rest fits => ?_⟩
  -- each part is at least a byte, so neither alone takes more than both may
  have behind := second.longer rest
  have front := first.longer (write' rest)
  exact Option.bind_eq_some_iff.2
    ⟨_, first.back _ (by omega), second.back rest (by omega)⟩

/-- What is made of something that is read back is read back. -/
theorem map (f : α → β) (h : Reads limit read write a) : Reads limit (read.map f) write (f a) :=
  ⟨h.longer, fun rest fits => Option.map_eq_some_iff.2 ⟨_, h.back rest fits, rfl⟩⟩

/-- What was read last goes into the result. -/
theorem yield (f : α → β) (h : Reads limit read write a) :
    Reads limit (read.bind fun a => .pure (f a)) write (f a) :=
  ⟨h.longer, fun rest fits => Option.bind_eq_some_iff.2 ⟨_, h.back rest fits, rfl⟩⟩

end Reads

/-! ## Numbers -/

theorem carries_varint (groups top : Nat) : Carries (varint groups top) (varint groups top) := by
  induction groups with
  | zero => exact nofun
  | succ groups ih =>
    intro bytes n rest more h
    cases bytes with
    | nil => cases h
    | cons b bytes =>
      rw [List.cons_append]
      -- a small byte ends the number, and behind a large one more groups follow
      simp only [varint] at h ⊢
      split at h
      · next small =>
        rw [if_pos small]
        split at h
        · cases h
        · next fits =>
          cases h
          rw [if_neg fits]
      · next large =>
        rw [if_neg large]
        split at h
        · next m rest' found =>
          cases h
          rw [ih _ _ _ more found]
        · cases h

/-- A byte holds any number below 256. -/
theorem toNat_byte {n : Nat} (small : n < 256) : (UInt8.ofNat n).toNat = n :=
  UInt8.toNat_ofNat_of_lt' small

/-- A number of varying length takes at least a byte. -/
theorem lt_length_varint (groups n : Nat) (rest : List UInt8) :
    rest.length < (Encoding.varint (groups + 1) n rest).length := by
  induction groups generalizing n with
  | zero =>
    rw [Encoding.varint]
    split <;> exact Nat.lt_succ_self _
  | succ groups ih =>
    rw [Encoding.varint]
    split
    · exact Nat.lt_succ_self _
    · exact Nat.lt_succ_of_lt (ih _)

/-- Such a number is read back, whatever follows it. -/
theorem read_varint {groups top n : Nat} (top_le : top ≤ 128) (small : n < top * 128 ^ groups)
    (rest : List UInt8) :
    varint (groups + 1) top (Encoding.varint (groups + 1) n rest) = some (n, rest) := by
  induction groups generalizing n with
  | zero =>
    rw [Nat.pow_zero, Nat.mul_one] at small
    have one : n < 128 := by omega
    rw [Encoding.varint, if_pos one]
    simp only [varint, toNat_byte (show n < 256 by omega)]
    rw [if_pos one, if_neg (by omega)]
  | succ groups ih =>
    rw [Encoding.varint]
    split
    · next one =>
      simp only [varint, toNat_byte (show n < 256 by omega)]
      rw [if_pos one, if_neg (by omega)]
    · next many =>
      -- the low seven bits are in this group, and the others have room in what is left
      have fits : n / 128 < top * 128 ^ groups := by
        rw [Nat.pow_succ, ← Nat.mul_assoc] at small
        exact Nat.div_lt_of_lt_mul (by omega)
      simp only [varint, toNat_byte (show 128 + n % 128 < 256 by omega)]
      rw [if_neg (by omega), ih fits]
      show some (128 + n % 128 - 128 + 128 * (n / 128), rest) = _
      rw [Nat.add_sub_cancel_left, Nat.mod_add_div]

/-- A number that its groups have room for is read back. -/
theorem reads_varint {groups top n : Nat} (top_le : top ≤ 128) (small : n < top * 128 ^ groups) :
    Reads limit (varint (groups + 1) top) (Encoding.varint (groups + 1) n) n :=
  ⟨lt_length_varint groups n, fun rest _ => read_varint top_le small rest⟩

theorem carries_word : Carries word word := (carries_varint 5 16).map UInt32.ofNat

/-- A word is read back. -/
theorem reads_word (n : UInt32) : Reads limit word (Encoding.word n) n := by
  have small : n.toNat < 16 * 128 ^ 4 := n.toNat_lt
  have read : Reads limit word (Encoding.word n) _ :=
    (reads_varint (by omega) small).map UInt32.ofNat
  rwa [UInt32.ofNat_toNat] at read

theorem carries_size : Carries size size := carries_varint 10 2

/-- So is a length. -/
theorem read_size {n : Nat} (small : n < 2 ^ 64) (rest : List UInt8) :
    size (Encoding.size n rest) = some (n, rest) :=
  read_varint (by omega) small rest

theorem carries_choice : Carries choice choice := carries_varint 5 16

/-- Signed numbers are folded to unsigned ones without a loss. -/
theorem unfold_fold (n : Int32) : unfold (Encoding.fold n) = n := by
  have low := n.le_toInt
  have high := n.toInt_lt
  unfold Encoding.fold
  split
  · next sign =>
    have e : (UInt32.ofNat (2 * n.toInt.toNat)).toNat = 2 * n.toInt.toNat :=
      UInt32.toNat_ofNat_of_lt' (by show _ < 2 ^ 32; omega)
    rw [unfold, e, if_pos (by omega), Nat.mul_div_cancel_left _ (by omega),
      Int.toNat_of_nonneg sign,
      Int32.ofInt_toInt]
  · next sign =>
    have e : (UInt32.ofNat (2 * (-n.toInt).toNat - 1)).toNat = 2 * (-n.toInt).toNat - 1 :=
      UInt32.toNat_ofNat_of_lt' (by show _ < 2 ^ 32; omega)
    rw [unfold, e, if_neg (by omega), show -(((2 * (-n.toInt).toNat - 1) / 2 + 1 : Nat) : Int) =
      n.toInt by
      omega, Int32.ofInt_toInt]

theorem carries_signed : Carries signed signed := carries_word.map unfold

/-- So a signed number is read back. -/
theorem reads_signed (n : Int32) : Reads limit signed (Encoding.signed n) n := by
  have read : Reads limit signed (Encoding.signed n) _ := (reads_word (Encoding.fold n)).map unfold
  rwa [unfold_fold] at read

theorem carries_littleEndian (count : Nat) : Carries (littleEndian count) (littleEndian count) := by
  induction count with
  | zero =>
    intro bytes n rest more h
    rw [littleEndian] at h ⊢
    cases h
    rfl
  | succ count ih =>
    intro bytes n rest more h
    cases bytes with
    | nil => cases h
    | cons b bytes => exact ih.map (fun more => b.toNat + 256 * more) _ _ _ more h

/-- A number of fixed length takes as many bytes as it says. -/
theorem length_littleEndian (count n : Nat) (rest : List UInt8) :
    (Encoding.littleEndian count n rest).length = rest.length + count := by
  induction count generalizing n with
  | zero => rfl
  | succ count ih => rw [Encoding.littleEndian, List.length_cons, ih, Nat.add_assoc]

/-- It is read back, whatever follows it. -/
theorem read_littleEndian {count n : Nat} (small : n < 256 ^ count) (rest : List UInt8) :
    littleEndian count (Encoding.littleEndian count n rest) = some (n, rest) := by
  induction count generalizing n with
  | zero =>
    obtain rfl : n = 0 := by simpa using small
    rfl
  | succ count ih =>
    have fits : n / 256 < 256 ^ count := by
      rw [Nat.pow_succ] at small
      exact Nat.div_lt_of_lt_mul (by omega)
    rw [Encoding.littleEndian, littleEndian, ih fits]
    show some ((UInt8.ofNat (n % 256)).toNat + 256 * (n / 256), rest) = _
    rw [toNat_byte (by omega), Nat.mod_add_div]

theorem carries_number : Carries number number :=
  (carries_littleEndian 8).map fun n => (⟨UInt64.ofNat n⟩ : Binary64)

/-- So is a number of the machine, bit by bit. -/
theorem reads_number (x : Binary64) : Reads limit number (Encoding.number x) x := by
  have small : x.bits.toNat < 256 ^ 8 := x.bits.toNat_lt
  refine ⟨fun rest => ?_, fun rest _ => ?_⟩
  · rw [Encoding.number, length_littleEndian]
    omega
  · rw [number, Encoding.number, read_littleEndian small]
    show some ((⟨UInt64.ofNat x.bits.toNat⟩ : Binary64), rest) = _
    rw [UInt64.ofNat_toNat]

theorem carries_bool : Carries bool bool := by
  intro bytes b rest more h
  unfold bool at h
  split at h <;> cases h <;> rfl

/-- So is a truth value. -/
theorem reads_bool (b : Bool) : Reads limit bool (Encoding.bool b) b :=
  ⟨fun _ => Nat.lt_succ_self _, fun _ _ => by cases b <;> rfl⟩

/-! ## Options, lists and texts -/

theorem carries_option {content content' : Reader α} (h : Carries content content') :
    Carries (option content) (option content') := by
  intro bytes a rest more found
  unfold option at found
  split at found
  · cases found
    rfl
  · exact h.map some _ _ _ more found
  · cases found

/-- What may be missing is read back with the mark before it. -/
theorem reads_option {content : Reader α} {write : α → Writer} (a : Option α)
    (h : ∀ b, a = some b → Reads limit content (write b) b) :
    Reads limit (option content) (Encoding.option write a) a := by
  cases a with
  | none => exact ⟨fun _ => Nat.lt_succ_self _, fun _ _ => rfl⟩
  | some b =>
    have some' := h b rfl
    refine ⟨fun rest => Nat.lt_succ_of_lt (some'.longer rest), fun rest fits => ?_⟩
    exact (some'.map some).back rest (Nat.le_of_succ_le fits)

theorem carries_items {item item' : Reader α} (h : Carries item item') (n : Nat) :
    Carries (items item n) (items item' n) := by
  induction n with
  | zero =>
    intro bytes a rest more found
    cases found
    rfl
  | succ n ih => exact h.bind fun a => ih.bind fun as => .pure (a :: as)

/-- A row takes at least a byte for each item. -/
theorem length_items {item : Reader α} {write : α → Writer} {as : List α}
    (h : ∀ a ∈ as, Reads limit item (write a) a) (rest : List UInt8) :
    rest.length + as.length ≤ (Encoding.items write as rest).length := by
  induction as with
  | nil => exact Nat.le_refl _
  | cons a as ih =>
    obtain ⟨first, others⟩ := List.forall_mem_cons.1 h
    have front := first.longer (Encoding.items write as rest)
    have behind := ih others
    rw [Encoding.items, List.length_cons]
    omega

/-- So the length that is written before a row is one that a reader accepts. -/
theorem read_items {item : Reader α} {write : α → Writer} {as : List α}
    (h : ∀ a ∈ as, Reads limit item (write a) a) (rest : List UInt8)
    (fits : (Encoding.items write as rest).length ≤ rest.length + limit) :
    items item as.length (Encoding.items write as rest) = some (as, rest) := by
  induction as with
  | nil => rfl
  | cons a as ih =>
    obtain ⟨first, others⟩ := List.forall_mem_cons.1 h
    have front := first.longer (Encoding.items write as rest)
    have behind := length_items others rest
    rw [Encoding.items] at fits ⊢
    exact Option.bind_eq_some_iff.2 ⟨_, first.back _ (by omega),
      Option.bind_eq_some_iff.2 ⟨_, ih others (by omega), rfl⟩⟩

/-- With more bytes behind, there is room for as many items. -/
theorem carries_list {item item' : Reader α} (h : Carries item item') :
    Carries (list item) (list item') := by
  intro bytes as rest more found
  obtain ⟨⟨n, middle⟩, counted, found⟩ := Option.bind_eq_some_iff.1 found
  refine Option.bind_eq_some_iff.2 ⟨_, carries_size _ _ _ more counted, ?_⟩
  dsimp only at found ⊢
  split at found
  · cases found
  · next room =>
    -- the length passed against fewer bytes already
    rw [if_neg (by rw [List.length_append]; omega)]
    exact carries_items h n _ _ _ more found

/-- The items of a list take a byte each, so they pass for a length that is read. -/
theorem reads_list {item : Reader α} {write : α → Writer} {as : List α} (small : limit < 2 ^ 64)
    (h : ∀ a ∈ as, Reads limit item (write a) a) :
    Reads limit (list item) (Encoding.list write as) as := by
  have behind := length_items h
  have front rest : _ < (Encoding.list write as rest).length :=
    lt_length_varint 9 as.length (Encoding.items write as rest)
  refine ⟨fun rest => ?_, fun rest fits => ?_⟩
  · exact Nat.lt_of_le_of_lt (Nat.le_trans (Nat.le_add_right ..) (behind rest)) (front rest)
  · have front := front rest
    have behind := behind rest
    have counted : size (Encoding.list write as rest) =
      some (as.length, Encoding.items write as rest) :=
      read_size (by omega) _
    refine Option.bind_eq_some_iff.2 ⟨_, counted, ?_⟩
    dsimp only
    rw [if_neg (by omega), read_items h rest (by omega)]

theorem carries_text : Carries text text := by
  intro bytes s rest more found
  obtain ⟨⟨n, middle⟩, counted, found⟩ := Option.bind_eq_some_iff.1 found
  refine Option.bind_eq_some_iff.2 ⟨_, carries_size _ _ _ more counted, ?_⟩
  dsimp only at found ⊢
  split at found
  · cases found
  · next room =>
    obtain ⟨s', decoded, e⟩ := Option.bind_eq_some_iff.1 found
    cases e
    rw [if_neg (by rw [List.length_append]; omega), List.take_append_of_le_length (by omega),
      List.drop_append_of_le_length (by omega), decoded]
    rfl

/-- The loop behind the bytes of an array takes them one by one. -/
theorem toList_loop (b : ByteArray) (i : Nat) (acc : List UInt8) :
    ByteArray.toList.loop b i acc = acc.reverse ++ b.data.toList.drop i := by
  fun_induction ByteArray.toList.loop b i acc with
  | case1 i acc inside ih =>
    have at' : b.data.toList.drop i = b.get! i :: b.data.toList.drop (i + 1) := by
      rw [List.drop_eq_getElem_cons (by simpa using inside)]
      congr 1
      simp [ByteArray.get!, inside]
    rw [ih, at', List.reverse_cons, List.append_assoc, List.singleton_append]
  | case2 i acc past =>
    rw [List.drop_eq_nil_of_le (by simpa using past), List.append_nil]

/-- The bytes of an array are its data. -/
theorem toList_eq (b : ByteArray) : b.toList = b.data.toList := by
  rw [ByteArray.toList, toList_loop]
  rfl

/-- A text has as many bytes as its encoding. -/
theorem length_utf8 (s : String) : s.toUTF8.toList.length = s.utf8ByteSize := by
  rw [toList_eq]
  rfl

/-- It is read back. -/
theorem reads_text (s : String) (small : limit < 2 ^ 64) :
    Reads limit text (Encoding.text s) s := by
  have front rest : rest.length + s.utf8ByteSize < (Encoding.text s rest).length := by
    have := lt_length_varint 9 s.utf8ByteSize (s.toUTF8.toList ++ rest)
    rw [List.length_append, length_utf8, Nat.add_comm] at this
    exact this
  refine ⟨fun rest => Nat.lt_of_le_of_lt (Nat.le_add_right ..) (front rest), fun rest fits => ?_⟩
  have front := front rest
  have whole : s.toUTF8.toList.toByteArray = s.toByteArray := by
    rw [toList_eq]
    exact ByteArray.ext List.data_toByteArray
  have decoded : String.fromUTF8? s.toByteArray = some s := dif_pos s.isValidUTF8
  have counted : size (Encoding.text s rest) = some (s.utf8ByteSize, s.toUTF8.toList ++ rest) :=
    read_size (by omega) _
  refine Option.bind_eq_some_iff.2 ⟨_, counted, ?_⟩
  dsimp only
  rw [if_neg (by rw [List.length_append, length_utf8]; omega), List.take_left' (length_utf8 s),
    List.drop_left' (length_utf8 s), whole, decoded]
  rfl

end SkipCode.Decoding
