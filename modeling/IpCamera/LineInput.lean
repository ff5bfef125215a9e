/-
# Reading a text line by line with `fgets`

`fgets` takes a line or, where the line is longer than the buffer, the next piece of it.
`pieces` lists what successive calls take of a text, `rawLines` its lines with their ends.
The pieces of a text are those of its lines (`pieces_eq`), and a line that the buffer holds
is its only piece.  `strtok` takes the next token of a string.
-/
import Mathlib.Data.List.TakeWhile
import Mathlib.Tactic

namespace LineInput

/-- A file that is read: what is left of it, and `feof`. -/
structure Stream where
  rest : List Char
  eof : Bool

/-- What is taken of a text by a read that has room for `room` characters, and what is left. -/
def line : ℕ → List Char → List Char × List Char
  | 0, s => ([], s)
  | _ + 1, [] => ([], [])
  | room + 1, c :: s =>
      if c = '\n' then ([c], s) else (c :: (line room s).1, (line room s).2)

theorem length_line (room : ℕ) (s : List Char) :
    (line room s).1.length + (line room s).2.length = s.length := by
  induction room generalizing s with
  | zero => simp [line]
  | succ room ih =>
    cases s with
    | nil => rfl
    | cons c s =>
      unfold line
      split
      · simp [Nat.add_comm]
      · have := ih s
        simp only [List.length_cons]
        omega

theorem line_ne_nil {room : ℕ} (hroom : 0 < room) {s : List Char} (hs : s ≠ []) :
    (line room s).1 ≠ [] := by
  match room, s, hroom, hs with
  | room + 1, c :: s, _, _ =>
    unfold line
    split <;> simp

theorem length_line_lt {room : ℕ} (hroom : 0 < room) {s : List Char} (hs : s ≠ []) :
    (line room s).2.length < s.length := by
  have hlen := length_line room s
  have hpos := List.length_pos_iff.mpr (line_ne_nil hroom hs)
  omega

/-- `fgets` with a buffer of `room + 1` characters: nothing at the end of the file; `feof` holds
after a read that came to the end before it had a line or a full buffer. -/
def fgets (room : ℕ) (fp : Stream) : Option (List Char) × Stream :=
  if fp.rest = [] then (none, ⟨[], true⟩)
  else
    let r := line room fp.rest
    (some r.1, ⟨r.2, fp.eof || decide (r.2 = [] ∧ r.1.length < room ∧ '\n' ∉ r.1)⟩)

theorem fgets_nil {room : ℕ} {eof : Bool} : fgets room ⟨[], eof⟩ = (none, ⟨[], true⟩) := rfl

/-- A read that finds something takes the next piece. -/
theorem fgets_of_ne_nil (room : ℕ) {s : List Char} (hs : s ≠ []) :
    ∃ eof, (eof = true → (line room s).2 = [])
      ∧ fgets room ⟨s, false⟩ = (some (line room s).1, ⟨(line room s).2, eof⟩) := by
  refine ⟨decide ((line room s).2 = [] ∧ (line room s).1.length < room ∧ '\n' ∉ (line room s).1),
    fun h => (of_decide_eq_true h).1, ?_⟩
  rw [fgets, if_neg hs]
  rfl

theorem length_rest_fgets {room : ℕ} (hroom : 0 < room) {fp fp' : Stream} {p : List Char}
    (h : fgets room fp = (some p, fp')) : fp'.rest.length < fp.rest.length := by
  unfold fgets at h
  split at h
  · cases h
  · rename_i hs
    obtain rfl := (Prod.mk.inj h).2
    exact length_line_lt hroom hs

theorem eof_of_fgets_none {room : ℕ} {fp fp' : Stream} (h : fgets room fp = (none, fp')) :
    fp' = ⟨[], true⟩ := by
  unfold fgets at h
  split at h
  · exact (Prod.mk.inj h).2.symm
  · cases h

/-- What successive reads take. -/
def pieces (room : ℕ) (s : List Char) : List (List Char) :=
  if h : 0 < room ∧ s ≠ [] then
    have := length_line_lt h.1 h.2
    (line room s).1 :: pieces room (line room s).2
  else []
termination_by s.length

/-- The lines of a text, each with its end. -/
def rawLines : List Char → List (List Char)
  | [] => []
  | c :: s =>
      if c = '\n' then [c] :: rawLines s
      else
        match rawLines s with
        | [] => [[c]]
        | l :: ls => (c :: l) :: ls

section Pieces

variable {room : ℕ} {t s : List Char}

theorem pieces_nil : pieces room [] = [] := by
  rw [pieces, dif_neg (by simp)]

theorem pieces_of_ne_nil (hroom : 0 < room) (hs : s ≠ []) :
    pieces room s = (line room s).1 :: pieces room (line room s).2 := by
  rw [pieces, dif_pos ⟨hroom, hs⟩]

/-- A line that the buffer does not hold. -/
theorem line_of_le (ht : '\n' ∉ t) (hle : room ≤ t.length) (s : List Char) :
    line room (t ++ s) = (t.take room, t.drop room ++ s) := by
  induction t generalizing room with
  | nil =>
    obtain rfl : room = 0 := Nat.le_zero.mp hle
    rfl
  | cons c t ih =>
    cases room with
    | zero => rfl
    | succ room =>
      have hc : c ≠ '\n' := fun h => ht (h ▸ List.mem_cons_self)
      have ih : line room (t ++ s) = (t.take room, t.drop room ++ s) :=
        ih (fun h => ht (List.mem_cons_of_mem c h)) (Nat.le_of_succ_le_succ hle)
      rw [List.cons_append, line, if_neg hc, ih]
      rfl

/-- A line that the buffer holds. -/
theorem line_of_lt (ht : '\n' ∉ t) (hlt : t.length < room) (s : List Char) :
    line room (t ++ '\n' :: s) = (t ++ ['\n'], s) := by
  induction t generalizing room with
  | nil =>
    obtain ⟨room, rfl⟩ := Nat.exists_eq_add_of_lt hlt
    rw [List.nil_append, List.length_nil, Nat.zero_add, line, if_pos rfl, List.nil_append]
  | cons c t ih =>
    cases room with
    | zero => exact absurd hlt (Nat.not_lt_zero _)
    | succ room =>
      have hc : c ≠ '\n' := fun h => ht (h ▸ List.mem_cons_self)
      have ih : line room (t ++ '\n' :: s) = (t ++ ['\n'], s) :=
        ih (fun h => ht (List.mem_cons_of_mem c h)) (Nat.lt_of_succ_lt_succ hlt)
      rw [List.cons_append, line, if_neg hc, ih]
      rfl

/-- The last line, without an end, that the buffer holds. -/
theorem line_of_end (ht : '\n' ∉ t) (hle : t.length ≤ room) : line room t = (t, []) := by
  induction t generalizing room with
  | nil => cases room <;> rfl
  | cons c t ih =>
    cases room with
    | zero => exact absurd hle (Nat.not_succ_le_zero _)
    | succ room =>
      have hc : c ≠ '\n' := fun h => ht (h ▸ List.mem_cons_self)
      rw [line, if_neg hc, ih (fun h => ht (List.mem_cons_of_mem c h))
        (Nat.le_of_succ_le_succ hle)]

theorem rawLines_of_not_mem (ht : '\n' ∉ t) (hne : t ≠ []) : rawLines t = [t] := by
  induction t with
  | nil => exact absurd rfl hne
  | cons c t ih =>
    have hc : c ≠ '\n' := fun h => ht (h ▸ List.mem_cons_self)
    rw [rawLines, if_neg hc]
    cases t with
    | nil => rfl
    | cons d t => rw [ih (fun h => ht (List.mem_cons_of_mem c h)) (List.cons_ne_nil d t)]

theorem rawLines_append (ht : '\n' ∉ t) (s : List Char) :
    rawLines (t ++ '\n' :: s) = (t ++ ['\n']) :: rawLines s := by
  induction t with
  | nil => rw [List.nil_append, rawLines, if_pos rfl, List.nil_append]
  | cons c t ih =>
    have hc : c ≠ '\n' := fun h => ht (h ▸ List.mem_cons_self)
    rw [List.cons_append, rawLines, if_neg hc, ih (fun h => ht (List.mem_cons_of_mem c h))]
    rfl

/-- A line that the buffer holds is its only piece. -/
theorem pieces_of_lt (ht : '\n' ∉ t) (hlt : t.length < room) :
    pieces room (t ++ ['\n']) = [t ++ ['\n']] := by
  rw [pieces_of_ne_nil (by omega) (by simp), line_of_lt ht hlt, pieces_nil]

theorem pieces_of_end (ht : '\n' ∉ t) (hne : t ≠ []) (hle : t.length ≤ room) :
    pieces room t = [t] := by
  have hpos := List.length_pos_iff.mpr hne
  rw [pieces_of_ne_nil (by omega) hne, line_of_end ht hle, pieces_nil]

/-- A read does not go on into the next line. -/
theorem pieces_append (hroom : 0 < room) (ht : '\n' ∉ t) (s : List Char) :
    pieces room (t ++ '\n' :: s) = pieces room (t ++ ['\n']) ++ pieces room s := by
  induction hn : t.length using Nat.strong_induction_on generalizing t with
  | _ n ih =>
    rw [pieces_of_ne_nil hroom (by simp), pieces_of_ne_nil hroom (s := t ++ ['\n']) (by simp)]
    by_cases hle : room ≤ t.length
    · rw [line_of_le ht hle, line_of_le ht hle, List.cons_append]
      congr 1
      refine ih (t.drop room).length ?_ (fun h => ht (List.mem_of_mem_drop h)) rfl
      rw [List.length_drop]
      omega
    · rw [line_of_lt ht (by omega), line_of_lt ht (by omega), pieces_nil]
      rfl

/-- **The pieces of a text are those of its lines.** -/
theorem pieces_eq (hroom : 0 < room) (s : List Char) :
    pieces room s = (rawLines s).flatMap (pieces room) := by
  induction hn : s.length using Nat.strong_induction_on generalizing s with
  | _ n ih =>
    by_cases hmem : '\n' ∈ s
    · obtain ⟨t, u, rfl, ht⟩ := List.eq_append_cons_of_mem hmem
      rw [pieces_append hroom ht, rawLines_append ht, List.flatMap_cons,
        ih u.length (by rw [← hn]; simp; omega) u rfl]
    · by_cases hs : s = []
      · rw [hs, pieces_nil]
        rfl
      · rw [rawLines_of_not_mem hmem hs, List.flatMap_singleton]

/-- A read takes no newline but at its end. -/
theorem line_shape (room : ℕ) (s : List Char) :
    ∃ t, '\n' ∉ t ∧ ((line room s).1 = t ∨ (line room s).1 = t ++ ['\n']) := by
  induction room generalizing s with
  | zero => exact ⟨[], List.not_mem_nil, Or.inl rfl⟩
  | succ room ih =>
    cases s with
    | nil => exact ⟨[], List.not_mem_nil, Or.inl rfl⟩
    | cons c s =>
      unfold line
      split
      · rename_i hc
        exact ⟨[], List.not_mem_nil, Or.inr (by rw [hc]; rfl)⟩
      · rename_i hc
        obtain ⟨t, ht, hshape⟩ := ih s
        have hmem : '\n' ∉ c :: t := fun h => (List.mem_cons.mp h).elim (fun h => hc h.symm) ht
        rcases hshape with h | h
        · exact ⟨c :: t, hmem, Or.inl (by rw [h])⟩
        · exact ⟨c :: t, hmem, Or.inr (by rw [h]; rfl)⟩

theorem pieces_shape {p : List Char} (hp : p ∈ pieces room s) :
    p ≠ [] ∧ ∃ t, '\n' ∉ t ∧ (p = t ∨ p = t ++ ['\n']) := by
  induction hn : s.length using Nat.strong_induction_on generalizing s with
  | _ n ih =>
    by_cases h : 0 < room ∧ s ≠ []
    · rw [pieces_of_ne_nil h.1 h.2] at hp
      rcases List.mem_cons.mp hp with rfl | hp
      · exact ⟨line_ne_nil h.1 h.2, line_shape room s⟩
      · exact ih _ (hn ▸ length_line_lt h.1 h.2) hp rfl
    · rw [pieces, dif_neg h] at hp
      cases hp

theorem length_line_le (room : ℕ) (s : List Char) : (line room s).1.length ≤ room := by
  induction room generalizing s with
  | zero => exact le_rfl
  | succ room ih =>
    cases s with
    | nil => exact Nat.zero_le _
    | cons c s =>
      rw [line]
      split
      · exact Nat.succ_le_succ (Nat.zero_le room)
      · exact Nat.succ_le_succ (ih s)

theorem length_piece_le {p : List Char} (hp : p ∈ pieces room s) : p.length ≤ room := by
  induction hn : s.length using Nat.strong_induction_on generalizing s with
  | _ n ih =>
    by_cases h : 0 < room ∧ s ≠ []
    · rw [pieces_of_ne_nil h.1 h.2] at hp
      rcases List.mem_cons.mp hp with rfl | hp
      · exact length_line_le room s
      · exact ih _ (hn ▸ length_line_lt h.1 h.2) hp rfl
    · rw [pieces, dif_neg h] at hp
      cases hp

theorem mem_rawLines {l : List Char} (hl : l ∈ rawLines s) :
    ∃ t, '\n' ∉ t ∧ (l = t ∧ t ≠ [] ∨ l = t ++ ['\n']) := by
  induction hn : s.length using Nat.strong_induction_on generalizing s with
  | _ n ih =>
    by_cases hmem : '\n' ∈ s
    · obtain ⟨t, u, rfl, ht⟩ := List.eq_append_cons_of_mem hmem
      rw [rawLines_append ht] at hl
      rcases List.mem_cons.mp hl with rfl | hl
      · exact ⟨t, ht, Or.inr rfl⟩
      · exact ih u.length (by rw [← hn]; simp; omega) hl rfl
    · by_cases hs : s = []
      · rw [hs] at hl
        cases hl
      · rw [rawLines_of_not_mem hmem hs, List.mem_singleton] at hl
        exact ⟨s, hmem, Or.inl ⟨hl, hs⟩⟩

end Pieces

/-! ## Tokens -/

/-- `strtok` with one separator: the next token and what is behind it. -/
def strtok (sep : Char) (s : List Char) : Option (List Char × List Char) :=
  match s.dropWhile (· = sep) with
  | [] => none
  | c :: s => some ((c :: s).takeWhile (· ≠ sep), ((c :: s).dropWhile (· ≠ sep)).tail)

theorem strtok_append {sep : Char} {t : List Char} (hne : t ≠ []) (ht : sep ∉ t) (u : List Char) :
    strtok sep (t ++ sep :: u) = some (t, u) := by
  have hall : ∀ c ∈ t, (decide (c ≠ sep)) = true := by
    intro c hc
    exact decide_eq_true fun h => ht (h ▸ hc)
  match t, hne with
  | c :: t, _ =>
    have hc : c ≠ sep := fun h => ht (h ▸ List.mem_cons_self)
    have hdrop : (c :: t ++ sep :: u).dropWhile (· = sep) = c :: (t ++ sep :: u) :=
      List.dropWhile_cons_of_neg (by simpa using hc)
    rw [strtok, hdrop]
    dsimp only
    rw [← List.cons_append, List.takeWhile_append_of_pos hall, List.dropWhile_append_of_pos hall]
    simp

theorem strtok_of_not_mem {sep : Char} {t : List Char} (hne : t ≠ []) (ht : sep ∉ t) :
    strtok sep t = some (t, []) := by
  have hall : ∀ c ∈ t, (decide (c ≠ sep)) = true := by
    intro c hc
    exact decide_eq_true fun h => ht (h ▸ hc)
  match t, hne with
  | c :: t, _ =>
    have hc : c ≠ sep := fun h => ht (h ▸ List.mem_cons_self)
    have hdrop : (c :: t).dropWhile (· = sep) = c :: t :=
      List.dropWhile_cons_of_neg (by simpa using hc)
    rw [strtok, hdrop]
    dsimp only
    rw [List.takeWhile_eq_self_iff.mpr hall, List.dropWhile_eq_nil_iff.mpr hall]
    rfl

/-- There is no token exactly when there are separators only. -/
theorem strtok_eq_none_iff {sep : Char} {s : List Char} :
    strtok sep s = none ↔ ∀ c ∈ s, c = sep := by
  have hnil : s.dropWhile (· = sep) = [] ↔ ∀ c ∈ s, c = sep := by
    rw [List.dropWhile_eq_nil_iff]
    simp
  rw [← hnil, strtok]
  split
  · rename_i heq
    exact iff_of_true rfl heq
  · rename_i c t heq
    exact iff_of_false nofun (by rw [heq]; exact List.cons_ne_nil c t)

end LineInput
