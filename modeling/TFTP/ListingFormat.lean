import Mathlib.Data.List.DropRight
import TFTP.ListingDelivery

/-!
# Reading a listing

A line for each name, the name in front of the last tab, its reader count behind it. Names
are not checked on their way into the map: one that has a newline of its own looks like
several lines, and any of them may look like the line of another name.
-/

namespace TFTP.ListingFormat

open Octets Packet Sockets FileSystem Runs Server ListingDelivery

def newline : UInt8 := 10

def tab : UInt8 := 9

section

variable {α : Type} [DecidableEq α] {mark : α}

theorem splitOn_terminated {xs : List (List α)} (clean : ∀ x ∈ xs, mark ∉ x) :
    (xs.flatMap (· ++ [mark])).splitOn mark = xs ++ [[]] := by
  induction xs with
  | nil => rfl
  | cons x xs ih =>
    have rest := ih fun y mem => clean y (List.mem_cons_of_mem _ mem)
    rw [List.flatMap_cons, List.append_assoc, List.singleton_append,
      List.splitOn_append_cons_self_of_not_mem (clean x List.mem_cons_self), rest,
      List.cons_append]

/-- The last mark ends the front. -/
theorem cut_last (front : List α) {back : List α} (clean : mark ∉ back) :
    (front ++ mark :: back).rdropWhile (· ≠ mark) = front ++ [mark] ∧
      (front ++ mark :: back).rtakeWhile (· ≠ mark) = back := by
  have others : ∀ c ∈ back.reverse, decide (c ≠ mark) = true := by
    intro c mem
    refine decide_eq_true fun same => clean ?_
    rw [← same]
    exact List.mem_reverse.mp mem
  have reversed : (front ++ mark :: back).reverse = back.reverse ++ mark :: front.reverse := by
    simp
  constructor
  · rw [List.rdropWhile, reversed, List.dropWhile_append_of_pos others]
    simp
  · rw [List.rtakeWhile, reversed, List.takeWhile_append_of_pos others]
    simp

end

theorem digits_of_repr {n : Nat} {c : Char} (mem : c ∈ n.repr.toList) : c.isDigit := by
  rw [Nat.repr, String.toList_ofList] at mem
  exact Nat.isDigit_of_mem_toDigits (by decide) (Nat.le_refl 10) mem

theorem repr_chars (n : Int) {c : Char} (mem : c ∈ n.repr.toList) : c = '-' ∨ c.isDigit := by
  rw [Int.repr_eq_if] at mem
  split at mem
  · exact Or.inr (digits_of_repr mem)
  · rw [String.toList_append] at mem
    rcases List.mem_append.mp mem with minus | rest
    · exact Or.inl (List.mem_singleton.mp minus)
    · exact Or.inr (digits_of_repr rest)

theorem natRepr_injective {n m : Nat} (same : n.repr.toList = m.repr.toList) : n = m := by
  simp only [Nat.repr, String.toList_ofList] at same
  have read := congrArg (fun digits => Nat.ofDigitChars 10 digits 0) same
  simpa only [Nat.ofDigitChars_toDigits (by decide : 1 < 10) (Nat.le_refl 10)] using read

/-- A sign is no digit. -/
theorem signed_ne_unsigned (n m : Nat) : ("-" ++ n.repr).toList ≠ m.repr.toList := by
  intro same
  have sign : '-' ∈ m.repr.toList := by
    rw [← same, String.toList_append]
    exact List.mem_append_left _ (List.mem_singleton.mpr rfl)
  exact absurd (digits_of_repr sign) (by decide)

theorem repr_injective {n m : Int} (same : n.repr.toList = m.repr.toList) : n = m := by
  simp only [Int.repr_eq_if] at same
  split at same <;> split at same
  · have equal := natRepr_injective same
    omega
  · exact absurd same.symm (signed_ne_unsigned _ _)
  · exact absurd same (signed_ne_unsigned _ _)
  · rw [String.toList_append, String.toList_append] at same
    have equal := natRepr_injective (List.append_cancel_left same)
    omega

def count (n : Int) : List UInt8 := text " [Active Readers] : " ++ text (toString n)

theorem repr_small (n : Int) {c : Char} (mem : c ∈ n.repr.toList) :
    45 ≤ c.toNat ∧ c.toNat ≤ 57 := by
  rcases repr_chars n mem with rfl | digit
  · decide
  · rw [Char.isDigit, Bool.and_eq_true, decide_eq_true_iff, decide_eq_true_iff] at digit
    have low : (48 : UInt32).toNat ≤ c.val.toNat := UInt32.le_iff_toNat_le.mp digit.1
    have high : c.val.toNat ≤ (57 : UInt32).toNat := UInt32.le_iff_toNat_le.mp digit.2
    exact ⟨Nat.le_trans (by decide) low, high⟩

theorem text_byte (n : Int) {c : Char} (mem : c ∈ n.repr.toList) :
    (c.toNat.toUInt8).toNat = c.toNat := by
  have small := (repr_small n mem).2
  exact Nat.mod_eq_of_lt (by omega)

/-- Neither tabs nor newlines. -/
theorem printable_of_mem_count {n : Int} {b : UInt8} (mem : b ∈ count n) : 32 ≤ b.toNat := by
  rcases List.mem_append.mp mem with fixed | digits
  · have label : (text " [Active Readers] : ").all (fun b => decide (32 ≤ b.toNat)) = true := by
      decide
    exact of_decide_eq_true (List.all_eq_true.mp label b fixed)
  · obtain ⟨c, char, rfl⟩ := List.mem_map.mp digits
    rw [text_byte n char]
    exact Nat.le_trans (by decide) (repr_small n char).1

theorem tab_not_mem_count (n : Int) : tab ∉ count n :=
  fun mem => absurd (printable_of_mem_count mem) (by decide)

theorem newline_not_mem_count (n : Int) : newline ∉ count n :=
  fun mem => absurd (printable_of_mem_count mem) (by decide)

theorem count_injective {n m : Int} (same : count n = count m) : n = m := by
  have back : ∀ k : Int, (text (toString k)).map (fun b => Char.ofNat b.toNat) = k.repr.toList := by
    intro k
    rw [text, List.map_map]
    refine (List.map_congr_left fun c mem => ?_).trans (List.map_id _)
    simp only [Function.comp_apply, text_byte k mem, Char.ofNat_toNat, id_eq]
  have digits := List.append_cancel_left same
  have chars := (back n).symm.trans ((congrArg _ digits).trans (back m))
  exact repr_injective chars

def line (entry : Name × Int) : List UInt8 := entry.1 ++ tab :: count entry.2

/-- What stands in front of the last tab of a line, and behind it. -/
def fields (l : List UInt8) : Name × List UInt8 :=
  ((l.rdropWhile (· ≠ tab)).dropLast, l.rtakeWhile (· ≠ tab))

/-- The lines of a text that ends with a newline. -/
def rows (content : List UInt8) : List (Name × List UInt8) :=
  ((content.splitOn newline).dropLast).map fields

theorem fields_line (entry : Name × Int) : fields (line entry) = (entry.1, count entry.2) := by
  obtain ⟨front, back⟩ := cut_last entry.1 (tab_not_mem_count entry.2)
  rw [fields, line, front, back, List.dropLast_concat]

theorem listingOf_lines (files : FileMap) :
    listingOf files = (files.toList.map line).flatMap (· ++ [newline]) := by
  rw [listingOf, List.flatMap_map]
  refine List.flatMap_congr fun entry _ => ?_
  simp only [line, count, List.append_assoc, List.cons_append]
  rfl

theorem newline_not_mem_line {entry : Name × Int} (clean : newline ∉ entry.1) :
    newline ∉ line entry := by
  intro mem
  rcases List.mem_append.mp mem with name | rest
  · exact clean name
  · rcases List.mem_cons.mp rest with tabbed | digits
    · revert tabbed
      decide
    · exact newline_not_mem_count _ digits

/-- Names without a newline. -/
def Clean (files : FileMap) : Prop := ∀ f ∈ files, newline ∉ f

theorem rows_listingOf {files : FileMap} (clean : Clean files) :
    rows (listingOf files) = files.toList.map fun entry => (entry.1, count entry.2) := by
  have lines : ∀ l ∈ files.toList.map line, newline ∉ l := by
    intro l mem
    obtain ⟨entry, there, rfl⟩ := List.mem_map.mp mem
    have value := Std.TreeMap.mem_toList_iff_getElem?_eq_some.mp there
    refine newline_not_mem_line (clean _ (Std.TreeMap.mem_iff_isSome_getElem?.mpr ?_))
    rw [value]
    rfl
  rw [rows, listingOf_lines, splitOn_terminated lines, List.dropLast_concat, List.map_map]
  exact List.map_congr_left fun entry _ => fields_line entry

/-- Maps with such names have different listings. -/
theorem listingOf_injective {files files' : FileMap} (clean : Clean files) (clean' : Clean files')
    (same : listingOf files = listingOf files') : files.toList = files'.toList := by
  have read := congrArg rows same
  rw [rows_listingOf clean, rows_listingOf clean'] at read
  refine List.map_injective_iff.mpr ?_ read
  rintro ⟨f, n⟩ ⟨g, m⟩ fields
  obtain ⟨name, counts⟩ := Prod.mk.inj fields
  exact Prod.ext name (count_injective counts)

/-- Two names with no reader, and one name that looks like both of them. -/
example :
    let honest := initializeFileMap [text "a", text "b"]
    let forged := initializeFileMap [text "a\t [Active Readers] : 0\nb"]
    listingOf honest = listingOf forged ∧ honest.toList.length ≠ forged.toList.length := by
  decide

/-- What a client has received of a listing tells it the names and the reader counts at the
time of its request, if no name has a newline: they are what its lines say, and no other map
has that listing. -/
theorem listing_read_back {s s₀ : State} {before : List Server.Action} (initial : Initial s)
    (run₀ : Run Server.machine s before s₀) {S : Session}
    (host : S.handler.ip = S.listening.ip) (apart : S.handler ≠ S.listening)
    (here : S.thread = s₀.handlers.length) (rendered : S.rendering = listingOf s₀.shared.files)
    (ackBuffer : Buffer 4) (env : Environment) (recievedBuffer : RecvBuffer)
    {acts : List ListingDelivery.Action} {t : System}
    (run : Run (machine S) (begin S s₀ ackBuffer env recievedBuffer) acts t)
    (done : t.client.status = .completed) (clean : Clean s₀.shared.files) :
    rows t.client.content =
        s₀.shared.files.toList.map (fun entry => (entry.1, count entry.2)) ∧
      ∀ files, Clean files → listingOf files = t.client.content →
        files.toList = s₀.shared.files.toList := by
  have inv := run_inv initial run₀ host apart here rendered ackBuffer env recievedBuffer run
  have whole : t.client.content = listingOf s₀.shared.files :=
    (inv.whole done).1.trans rendered
  rw [whole]
  exact ⟨rows_listingOf clean, fun files clean' same => listingOf_injective clean' clean same⟩

theorem listing_read_back_one_line :
    let s₀ := startedWith (text "f") [7]
    let told := step oneLine (begin oneLine s₀ (Buffer.zero 4) .ok (Buffer.zero 516))
      (.client (.datagram oneLine.handler ([0, 3, 0, 1] ++ oneLine.rendering)) .ok)
    rows told.client.content = [(text "f", count 0)] := by
  intro s₀ told
  have run : Run (machine oneLine) (begin oneLine s₀ (Buffer.zero 4) .ok (Buffer.zero 516))
      ([] ++ [.client (.datagram oneLine.handler ([0, 3, 0, 1] ++ oneLine.rendering)) .ok])
        told := .snoc (.refl _) ⟨by decide, fun _ => ⟨rfl, by decide⟩⟩
  have clean : Clean s₀.shared.files := by
    intro f mem
    rw [Std.TreeMap.mem_iff_isSome_getElem?] at mem
    change (initializeFileMap [text "f"])[f]?.isSome = true at mem
    rw [getElem?_initializeFileMap] at mem
    split at mem
    · rename_i only
      rw [List.mem_singleton.mp only]
      decide
    · cases mem
  have done : told.client.status = .completed := by decide
  have read := listing_read_back (startedWith_initial (by decide) [7]) (.refl s₀)
    (S := oneLine) rfl (by decide) rfl (by decide) (Buffer.zero 4) .ok (Buffer.zero 516) run
    done clean
  exact read.1

end TFTP.ListingFormat
