import ClaireCommon.Strings.Lemmas.StringPiece
import ClaireCommon.Strings.Lemmas.UriEscape
import ClaireCommon.Symbolizer.MapsText

/-!
This module contains that the file for an address is found in every text of `/proc/self/maps`.
-/

namespace Claire
namespace Symbolizer

open Pattern Traced

theorem eq_false_of_isXdigit : ∀ c, isXdigit c = true → isSpace c = false :=
  forall_byte (by decide +kernel)

theorem eq_false_of_isBlank : ∀ c, isBlank c = true → isSpace c = true ∧ isXdigit c = false
    ∧ isWordOrDash c = false ∧ isDigit c = false :=
  forall_byte (by decide +kernel)

theorem eq_false_of_isWordOrDash : ∀ c, isWordOrDash c = true → isSpace c = false :=
  forall_byte (by decide +kernel)

theorem isXdigit_of_isDigit : ∀ c, isDigit c = true → isXdigit c = true :=
  forall_byte (by decide +kernel)

section

variable {kind kind' : UInt8 → Bool} {part rest text : List UInt8} {n : Nat}

theorem IsPart.of_all (hne : part ≠ []) (hall : part.all kind = true) : IsPart kind part :=
  ⟨hne, List.all_eq_true.mp hall⟩

theorem IsPart.mono (h : IsPart kind part) (hkind : ∀ c, kind c = true → kind' c = true)
    : IsPart kind' part where
  ne_nil := h.ne_nil
  kind c hc := hkind c (h.kind c hc)

theorem IsPart.matches (h : IsPart kind part) : (Item.many kind 1).Matches part :=
  ⟨List.length_pos_of_ne_nil h.ne_nil, h.kind⟩

theorem IsPart.stops (h : IsPart kind part) (hkind : ∀ c, kind c = true → kind' c = false)
    : (Item.many kind' n).Stops (part ++ rest) := by
  intro c hc
  cases part with
  | nil => exact absurd rfl h.ne_nil
  | cons d part =>
    injection hc with hc
    subst hc
    exact hkind d (h.kind d List.mem_cons_self)

theorem fromHex_of_isHex (h : IsHex n text) : (fromHex text).result = .ok n := by
  have hall : text.takeWhile isXdigit = text := List.takeWhile_eq_self_iff.mpr h.kind
  have hlt := h.lt
  unfold fromHex
  dsimp only
  rw [hall, result_bind_of_ok (a := ⟨⟩) (Reader.check_eq_ok.mpr (by simpa using h.ne_nil)), h.value,
    result_pure, Nat.min_eq_left (by omega)]

end

namespace MapsLine

variable (line : MapsLine)

theorem longest_parts : Longest mapLineRegex line.parts := by
  have hgap i : IsPart isBlank (line.gap i) := line.isPart_gap i
  have hgapMatches i : (Item.many isSpace 1).Matches (line.gap i) :=
    ((hgap i).mono fun c hc => (eq_false_of_isBlank c hc).1).matches
  have hblank : ∀ c, isBlank c = true → isXdigit c = false := fun c hc => (eq_false_of_isBlank c hc).2.1
  have hxdigit := eq_false_of_isXdigit
  have hdash {rest : List UInt8} : (Item.many isXdigit 1).Stops ([0x2d] ++ rest) := by
    intro c hc
    injection hc with hc
    subst hc
    rfl
  have hcolon {rest : List UInt8} : (Item.many isXdigit 1).Stops ([0x3a] ++ rest) := by
    intro c hc
    injection hc with hc
    subst hc
    rfl
  have hname : (Item.many isSpace 0).Stops (line.entry.name ++ []) := by
    rw [List.append_nil]
    exact line.name_start
  have hinode : (Item.many isDigit 1).Stops (line.nameGap ++ (line.entry.name ++ [])) := by
    cases hgap : line.nameGap with
    | nil =>
      rw [line.name_gap hgap]
      intro c hc
      exact absurd hc (Option.not_mem_none c)
    | cons d gap =>
      intro c hc
      injection hc with hc
      subst hc
      exact (eq_false_of_isBlank d (line.isBlank_nameGap d (by simp [hgap]))).2.2.2
  have hnameGap : (Item.many isSpace 0).Matches line.nameGap :=
    ⟨Nat.zero_le _, fun c hc => (eq_false_of_isBlank c (line.isBlank_nameGap c hc)).1⟩
  have hrest : (Item.many (fun _ => true) 0).Matches line.entry.name := ⟨Nat.zero_le _, fun _ _ => rfl⟩
  unfold mapLineRegex parts
  refine .cons line.isHex_begin.matches hdash ?_
  refine .cons rfl trivial ?_
  refine .cons line.isHex_end.matches ((hgap 0).stops hblank) ?_
  refine .cons (hgapMatches 0) (line.isPart_permissions.stops eq_false_of_isWordOrDash) ?_
  refine .cons line.isPart_permissions.matches
    ((hgap 1).stops fun c hc => (eq_false_of_isBlank c hc).2.2.1) ?_
  refine .cons (hgapMatches 1) (line.isHex_offset.stops hxdigit) ?_
  refine .cons line.isHex_offset.matches ((hgap 2).stops hblank) ?_
  refine .cons (hgapMatches 2) (line.isPart_device.1.stops hxdigit) ?_
  refine .cons line.isPart_device.1.matches hcolon ?_
  refine .cons rfl trivial ?_
  refine .cons line.isPart_device.2.matches ((hgap 3).stops hblank) ?_
  refine .cons (hgapMatches 3) (line.isPart_inode.stops fun c hc => hxdigit c (isXdigit_of_isDigit c hc)) ?_
  refine .cons line.isPart_inode.matches hinode ?_
  refine .cons hnameGap hname ?_
  refine .cons hrest ?_ .nil
  intro c hc
  exact absurd hc (Option.not_mem_none c)

theorem regexMatch_text
    : regexMatch line.text = some ⟨line.begin_, line.end_, line.offset, line.entry.name⟩ := by
  unfold regexMatch text
  rw [first_of_longest line.longest_parts]
  rfl

theorem text_ne_nil : line.text ≠ [] := by
  simp [text, parts]

theorem newline_not_mem_text : 0x0a ∉ line.text := by
  have hpart {kind : UInt8 → Bool} {part : List UInt8} (h : ∀ c ∈ part, kind c = true)
      (hkind : kind 0x0a = false) : 0x0a ∉ part := by
    intro hmem
    rw [h _ hmem] at hkind
    contradiction
  have hgap i : 0x0a ∉ line.gap i := hpart (line.isPart_gap i).kind rfl
  simp only [text, parts, List.flatten_cons, List.flatten_nil, List.append_nil, List.mem_append, not_or]
  exact ⟨hpart line.isHex_begin.kind rfl, by decide, hpart line.isHex_end.kind rfl, hgap 0,
    hpart line.isPart_permissions.kind rfl, hgap 1, hpart line.isHex_offset.kind rfl, hgap 2,
    hpart line.isPart_device.1.kind rfl, by decide, hpart line.isPart_device.2.kind rfl, hgap 3,
    hpart line.isPart_inode.kind rfl, hpart line.isBlank_nameGap rfl, line.name_newline⟩

end MapsLine

variable {address : Nat}

theorem getMapsLine_mapsText (lines : List MapsLine)
    : getMapsLine (mapsText lines) = lines.map MapsLine.text ++ [[]] := by
  unfold getMapsLine mapsText
  induction lines with
  | nil => rfl
  | cons line lines ih =>
    rw [List.flatMap_cons, List.append_assoc, List.singleton_append,
      List.splitOn_append_cons_self, List.splitOn_eq_singleton line.newline_not_mem_text, ih]
    rfl

def MapsEntry.file (entry : MapsEntry) : MappedFile := ⟨entry.begin_, entry.end_, entry.name⟩

theorem findFile_mapsText (lines : List MapsLine) (address : Nat)
    : (findFile address (getMapsLine (mapsText lines))).result
        = .ok ((lines.find? (·.entry.Maps address)).map (·.entry.file)) := by
  rw [getMapsLine_mapsText]
  induction lines with
  | nil => rfl
  | cons line lines ih =>
    rw [List.map_cons, List.cons_append]
    unfold findFile
    rw [if_neg (by simpa using line.text_ne_nil), line.regexMatch_text]
    dsimp only
    rw [result_bind_of_ok (fromHex_of_isHex line.isHex_begin),
      result_bind_of_ok (fromHex_of_isHex line.isHex_end),
      result_bind_of_ok (fromHex_of_isHex line.isHex_offset), List.find?_cons]
    by_cases hmaps : line.entry.Maps address
    . rw [if_neg (by simp [hmaps.1]), if_pos hmaps.2, decide_eq_true hmaps]
      rfl
    . rw [decide_eq_false hmaps]
      dsimp only
      split
      . exact ih
      . next hoffset => rw [if_neg (fun hrange => hmaps ⟨not_not.mp hoffset, hrange⟩), ih]

end Symbolizer
end Claire
