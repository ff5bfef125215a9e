/-
# Scanning a text for key words

A loop that reads a text with `fgets` and looks for key words in what it read: `whileFgets` is
the loop, `runPieces` what it does to a list of pieces, and `runPieces_lines` cuts a run over a
text into runs over its lines.  A line whose key words stand in its first piece (`Visible`) shows
them there, and its further pieces show none.
-/
import IpCamera.LineInput
import Mathlib.Data.List.Infix

open LineInput

namespace LineScan

variable {σ : Type*}

/-! ## The loop -/

/-- `while (fgets(..) != NULL)`, with a body that may break. -/
def whileFgets (room : ℕ) (hroom : 0 < room) (body : List Char → σ → ForInStep σ) (fp : Stream)
    (s : σ) : σ :=
  match h : fgets room fp with
  | (none, _) => s
  | (some p, fp') =>
    match body p s with
    | .done s => s
    | .yield s => whileFgets room hroom body fp' s
termination_by fp.rest.length
decreasing_by exact length_rest_fgets hroom h

/-- The body for one piece after the other, until it breaks. -/
def runPieces (body : List Char → σ → ForInStep σ) : List (List Char) → σ → ForInStep σ
  | [], s => .yield s
  | p :: ps, s =>
    match body p s with
    | .done s => .done s
    | .yield s => runPieces body ps s

variable {body : List Char → σ → ForInStep σ} {room : ℕ}

theorem whileFgets_eq (hroom : 0 < room) (text : List Char) (eof : Bool) (s : σ) :
    whileFgets room hroom body ⟨text, eof⟩ s = (runPieces body (pieces room text) s).value := by
  induction hn : text.length using Nat.strong_induction_on generalizing text eof s with
  | _ n ih =>
    by_cases hs : text = []
    · subst hs
      rw [whileFgets, pieces_nil]
      rfl
    · obtain ⟨eof', hread⟩ : ∃ eof', fgets room ⟨text, eof⟩
          = (some (line room text).1, ⟨(line room text).2, eof'⟩) := by
        rw [fgets, if_neg hs]
        exact ⟨_, rfl⟩
      have hlt := hn ▸ length_line_lt hroom hs
      rw [pieces_of_ne_nil hroom hs, runPieces, whileFgets]
      split
      next h => rw [hread] at h; cases h
      next h =>
        rw [hread] at h
        obtain ⟨hp, hfp⟩ := Prod.mk.inj h
        rw [Option.some.inj hp] at *
        cases body _ s with
        | done s => rfl
        | yield s =>
          rw [← hfp]
          exact ih _ hlt _ eof' s rfl

theorem runPieces_append (ps qs : List (List Char)) (s : σ) :
    runPieces body (ps ++ qs) s
      = match runPieces body ps s with
        | .done s => .done s
        | .yield s => runPieces body qs s := by
  induction ps generalizing s with
  | nil => rfl
  | cons p ps ih =>
    rw [List.cons_append, runPieces, runPieces]
    cases body p s with
    | done s => rfl
    | yield s => exact ih s

theorem runPieces_of_yield {ps : List (List Char)} {s s' : σ}
    (h : runPieces body ps s = .yield s') (qs : List (List Char)) :
    runPieces body (ps ++ qs) s = runPieces body qs s' := by
  rw [runPieces_append, h]

/-- A body without breaks folds the pieces. -/
theorem runPieces_yield (f : σ → List Char → σ) (ps : List (List Char)) (s : σ) :
    runPieces (fun p s => .yield (f s p)) ps s = .yield (ps.foldl f s) := by
  induction ps generalizing s with
  | nil => rfl
  | cons p ps ih => exact ih (f s p)

/-- Pieces that leave a state alone. -/
theorem runPieces_skip {ps : List (List Char)} {s : σ} (h : ∀ p ∈ ps, body p s = .yield s) :
    runPieces body ps s = .yield s := by
  induction ps with
  | nil => rfl
  | cons p ps ih =>
    rw [runPieces, h p List.mem_cons_self]
    exact ih fun q hq => h q (List.mem_cons_of_mem p hq)

/-! ## Lines -/

/-- The text of lines. -/
def textOf (lines : List (List Char)) : List Char := lines.flatMap fun t => t ++ ['\n']

/-- The pieces of lines. -/
def linePieces (room : ℕ) (lines : List (List Char)) : List (List Char) :=
  lines.flatMap fun t => pieces room (t ++ ['\n'])

theorem linePieces_cons (room : ℕ) (t : List Char) (lines : List (List Char)) :
    linePieces room (t :: lines) = pieces room (t ++ ['\n']) ++ linePieces room lines := by
  rw [linePieces, List.flatMap_cons]
  rfl

theorem linePieces_append (room : ℕ) (lines lines' : List (List Char)) :
    linePieces room (lines ++ lines') = linePieces room lines ++ linePieces room lines' :=
  List.flatMap_append

theorem pieces_textOf (hroom : 0 < room) {lines : List (List Char)} (h : ∀ t ∈ lines, '\n' ∉ t) :
    pieces room (textOf lines) = linePieces room lines := by
  induction lines with
  | nil => exact pieces_nil
  | cons t lines ih =>
    rw [textOf, List.flatMap_cons, List.append_assoc, List.singleton_append,
      pieces_append hroom (h t List.mem_cons_self), linePieces, List.flatMap_cons]
    exact congrArg _ (ih fun u hu => h u (List.mem_cons_of_mem t hu))

/-! ## Key words -/

/-- The key words of a line stand in its first piece. -/
def Visible (room : ℕ) (words : List (List Char)) (t : List Char) : Prop :=
  ∀ w ∈ words, (w <:+: t → w <:+: t.take room) ∧ ¬ w <:+: t.drop room

instance (room : ℕ) (words : List (List Char)) (t : List Char) : Decidable (Visible room words t) :=
  inferInstanceAs (Decidable (∀ w ∈ words, _))

/-- A word without a newline is not made by the end of a line. -/
theorem infix_append_newline {w t : List Char} (hw : '\n' ∉ w) (hne : w ≠ []) :
    w <:+: t ++ ['\n'] ↔ w <:+: t := by
  constructor
  · rintro ⟨a, b, h⟩
    rcases List.eq_nil_or_concat b with rfl | ⟨b, c, rfl⟩
    · rw [List.append_nil] at h
      obtain ⟨w', c, rfl⟩ := (List.eq_nil_or_concat w).resolve_left hne
      rw [List.concat_eq_append, ← List.append_assoc] at h
      have hlast := (List.append_inj' h rfl).2
      exact absurd (by rw [List.concat_eq_append, hlast]; simp) hw
    · rw [List.concat_eq_append, ← List.append_assoc] at h
      exact ⟨a, b, (List.append_inj' h rfl).1⟩
  · exact fun h => h.trans (List.prefix_append t ['\n']).isInfix

theorem visible_of_length_le {words : List (List Char)} (hwords : ∀ w ∈ words, w ≠ [])
    {t : List Char} (hle : t.length ≤ room) : Visible room words t := by
  intro w hw
  rw [List.take_of_length_le hle, List.drop_of_length_le hle]
  exact ⟨id, fun h => hwords w hw (List.infix_nil.mp h)⟩

theorem line_append (room : ℕ) (s : List Char) : (line room s).1 ++ (line room s).2 = s := by
  induction room generalizing s with
  | zero => rfl
  | succ room ih =>
    cases s with
    | nil => rfl
    | cons c s =>
      rw [line]
      split
      · rfl
      · exact congrArg (List.cons c) (ih s)

theorem infix_of_mem_pieces {p s : List Char} (hp : p ∈ pieces room s) : p <:+: s := by
  induction hn : s.length using Nat.strong_induction_on generalizing s with
  | _ n ih =>
    by_cases h : 0 < room ∧ s ≠ []
    · have happend := line_append room s
      rw [pieces_of_ne_nil h.1 h.2] at hp
      rcases List.mem_cons.mp hp with rfl | hp
      · exact ⟨[], _, happend⟩
      · exact (ih _ (hn ▸ length_line_lt h.1 h.2) hp rfl).trans ⟨_, [], by simpa using happend⟩
    · rw [pieces, dif_neg h] at hp
      cases hp

/-- The pieces of a visible line: the first has its key words, the others have none. -/
theorem pieces_visible (hroom : 0 < room) {words : List (List Char)}
    (hwords : ∀ w ∈ words, w ≠ [] ∧ '\n' ∉ w) {t : List Char} (ht : '\n' ∉ t)
    (hvisible : Visible room words t) :
    ∃ p ps, pieces room (t ++ ['\n']) = p :: ps ∧ p <+: t ++ ['\n'] ∧
      (∀ w ∈ words, w <:+: p ↔ w <:+: t) ∧ ∀ q ∈ ps, ∀ w ∈ words, ¬ w <:+: q := by
  rcases Nat.lt_or_ge t.length room with hlt | hge
  · refine ⟨t ++ ['\n'], [], pieces_of_lt ht hlt, List.prefix_rfl, ?_, ?_⟩
    · exact fun w hw => infix_append_newline (hwords w hw).2 (hwords w hw).1
    · exact fun q hq => absurd hq List.not_mem_nil
  · refine ⟨t.take room, pieces room (t.drop room ++ ['\n']), ?_, ?_, ?_, ?_⟩
    · rw [pieces_of_ne_nil hroom (by simp), line_of_le ht hge]
    · exact (List.take_prefix room t).trans (List.prefix_append t ['\n'])
    · intro w hw
      exact ⟨fun h => h.trans (List.take_prefix room t).isInfix, (hvisible w hw).1⟩
    · intro q hq w hw h
      have hin := h.trans (infix_of_mem_pieces hq)
      exact (hvisible w hw).2 ((infix_append_newline (hwords w hw).2 (hwords w hw).1).mp hin)

/-! ## Scanned lines -/

/-- A line of text that shows its key words. -/
structure ScanLine (room : ℕ) (words : List (List Char)) where
  text : List Char
  newline : '\n' ∉ text
  zero : '\x00' ∉ text
  visible : Visible room words text

/-- A short text is such a line. -/
def ScanLine.ofShort {words : List (List Char)} (hwords : ∀ w ∈ words, w ≠ []) (text : List Char)
    (newline : '\n' ∉ text) (zero : '\x00' ∉ text) (hle : text.length ≤ room) :
    ScanLine room words :=
  ⟨text, newline, zero, visible_of_length_le hwords hle⟩

namespace ScanLine

variable {words : List (List Char)}

/-- A piece that the line may show: it has the line's key words. -/
structure Shows (l : ScanLine room words) (p : List Char) : Prop where
  words_iff : ∀ w ∈ words, w <:+: p ↔ w <:+: l.text
  zero : '\x00' ∉ p

/-- A piece without key words. -/
structure Blank (words : List (List Char)) (p : List Char) : Prop where
  words : ∀ w ∈ words, ¬ w <:+: p
  zero : '\x00' ∉ p

theorem zero_of_mem_pieces (l : ScanLine room words) {p : List Char}
    (hp : p ∈ pieces room (l.text ++ ['\n'])) : '\x00' ∉ p := by
  intro h
  rcases List.mem_append.mp ((infix_of_mem_pieces hp).subset h) with h | h
  · exact l.zero h
  · exact absurd h (by decide)

/-- A line is one piece that shows its key words, and pieces without any. -/
theorem exists_pieces (l : ScanLine room words) (hroom : 0 < room)
    (hwords : ∀ w ∈ words, w ≠ [] ∧ '\n' ∉ w) :
    ∃ p ps, pieces room (l.text ++ ['\n']) = p :: ps ∧ l.Shows p ∧ ∀ q ∈ ps, Blank words q := by
  obtain ⟨p, ps, hpieces, -, hp, hps⟩ := pieces_visible hroom hwords l.newline l.visible
  refine ⟨p, ps, hpieces, ⟨hp, l.zero_of_mem_pieces ?_⟩, fun q hq => ⟨hps q hq, ?_⟩⟩
  · exact hpieces ▸ List.mem_cons_self
  · exact l.zero_of_mem_pieces (hpieces ▸ List.mem_cons_of_mem p hq)

/-- A line whose first piece leads to a state that blank pieces leave alone. -/
theorem runPieces_line (l : ScanLine room words) (hroom : 0 < room)
    (hwords : ∀ w ∈ words, w ≠ [] ∧ '\n' ∉ w) {s s' : σ}
    (hfirst : ∀ p, l.Shows p → body p s = .yield s')
    (hblank : ∀ q, Blank words q → body q s' = .yield s') :
    runPieces body (pieces room (l.text ++ ['\n'])) s = .yield s' := by
  obtain ⟨p, ps, hpieces, hp, hps⟩ := l.exists_pieces hroom hwords
  rw [hpieces, runPieces, hfirst p hp]
  exact runPieces_skip fun q hq => hblank q (hps q hq)

/-- A line whose first piece ends the loop. -/
theorem runPieces_done (l : ScanLine room words) (hroom : 0 < room)
    (hwords : ∀ w ∈ words, w ≠ [] ∧ '\n' ∉ w) {s s' : σ}
    (hfirst : ∀ p, l.Shows p → body p s = .done s') :
    runPieces body (pieces room (l.text ++ ['\n'])) s = .done s' := by
  obtain ⟨p, ps, hpieces, hp, -⟩ := l.exists_pieces hroom hwords
  rw [hpieces, runPieces, hfirst p hp]

end ScanLine

end LineScan
