-- Lines of text with continuation lines: what a reader of such a text has to
-- agree with. A newline before a blank is a space, runs of blanks are one
-- space, and what is left is cut at the newlines.
import Mathlib.Data.List.Basic
import Mathlib.Data.List.Chain
import Mathlib.Data.List.DropRight
import Mathlib.Tactic.Common

namespace Text

/-- `std::isspace` of the C locale. -/
def isspace (c : Char) : Bool :=
  c == ' ' || c == '\t' || c == '\n' || c == '\x0b' || c == '\x0c' || c == '\r'

def blank (c : Char) : Bool := c == ' ' || c == '\t'

def trim (l : List Char) : List Char := (l.dropWhile isspace).rdropWhile isspace

/-- Carriage returns and vertical spacing are not part of the text. -/
def ignored (c : Char) : Bool := c == '\r' || c == '\x0b' || c == '\x0c'

def strip (s : List Char) : List Char := s.filter fun c => !ignored c

/-- A newline directly before a blank is a space. -/
def unwrap : List Char → List Char
  | [] => []
  | c :: t => (if c = '\n' ∧ t.head?.any blank then ' ' else c) :: unwrap t

/-- Each run of blanks is one space; the flag says that the text before ends with a blank. -/
def collapse : Bool → List Char → List Char
  | _, [] => []
  | b, c :: t =>
    if blank c then if b then collapse true t else ' ' :: collapse true t
    else c :: collapse false t

def normal (s : List Char) : List Char := collapse false (unwrap (strip s))

/-- The logical lines of a text, the last one too when no newline ends it. -/
def lines (s : List Char) : List (List Char) := ((normal s).splitOn '\n').map trim

/-! ## Trimming -/

variable {l a r s : List Char} {c : Char}

theorem isspace_cases (h : isspace c) : blank c ∨ c = '\n' ∨ ignored c := by
  unfold isspace at h
  unfold blank ignored
  simp only [Bool.or_eq_true, beq_iff_eq] at h ⊢
  tauto

theorem rdropWhile_append_of_space (h : isspace c) (l : List Char) :
    (l ++ [c]).rdropWhile isspace = l.rdropWhile isspace :=
  List.rdropWhile_concat_pos _ l c h

theorem trim_append_space (h : isspace c) (l : List Char) : trim (l ++ [c]) = trim l := by
  unfold trim
  rw [List.dropWhile_append]
  by_cases he : (l.dropWhile isspace).isEmpty
  · rw [if_pos he, List.isEmpty_iff.mp he, List.dropWhile_cons_of_pos h]
    rfl
  · rw [if_neg he, rdropWhile_append_of_space h]

/-- What starts and ends with no space is its own trimmed text. -/
theorem trim_eq_self (hh : ∀ c ∈ l.head?, ¬ isspace c) (hl : ∀ c ∈ l.getLast?, ¬ isspace c) : trim l = l := by
  have hd : l.dropWhile isspace = l := by
    cases l with
    | nil => rfl
    | cons x t => exact List.dropWhile_cons_of_neg (hh x rfl)
  unfold trim
  rw [hd, List.rdropWhile_eq_self_iff]
  intro hne
  exact hl _ (List.getLast?_eq_getLast_of_ne_nil hne)

theorem trim_head (l : List Char) : ∀ c ∈ (trim l).head?, ¬ isspace c := by
  intro c hc
  have hp : trim l <+: l.dropWhile isspace := List.rdropWhile_prefix _ _
  obtain ⟨t, ht⟩ := hp
  cases he : trim l with
  | nil => rw [he] at hc; cases hc
  | cons x u =>
    rw [he] at hc ht
    cases hc
    have hx := List.head?_dropWhile_not isspace l
    rw [← ht] at hx
    simpa using hx

theorem trim_last (l : List Char) : ∀ c ∈ (trim l).getLast?, ¬ isspace c := by
  intro c hc
  cases he : trim l with
  | nil => rw [he] at hc; cases hc
  | cons x u =>
    have hne : trim l ≠ [] := by rw [he]; exact List.cons_ne_nil _ _
    rw [List.getLast?_eq_getLast_of_ne_nil hne] at hc
    cases hc
    exact List.rdropWhile_last_not _ _ hne

@[simp] theorem trim_trim (l : List Char) : trim (trim l) = trim l := trim_eq_self (trim_head l) (trim_last l)

theorem trim_within (l : List Char) : trim l <:+: l :=
  (List.rdropWhile_prefix _ _).isInfix.trans (List.dropWhile_suffix _).isInfix

theorem trim_of_head (h : ∀ c ∈ l.head?, ¬ isspace c) : trim l = l.rdropWhile isspace := by
  unfold trim
  cases l with
  | nil => rfl
  | cons x t => rw [List.dropWhile_cons_of_neg (h x rfl)]

theorem trim_of_last (h : ∀ c ∈ l.getLast?, ¬ isspace c) : trim l = l.dropWhile isspace := by
  unfold trim
  rw [List.rdropWhile_eq_self_iff]
  intro hne
  apply h
  rw [(List.dropWhile_suffix isspace).getLast hne]
  exact List.getLast?_eq_getLast_of_ne_nil _

theorem trim_eq_nil : trim l = [] ↔ ∀ c ∈ l, isspace c := by
  unfold trim
  rw [List.rdropWhile_eq_nil_iff]
  constructor
  · intro h
    have hd : l.dropWhile isspace = [] := by
      by_contra hne
      have hhead := h _ (List.head_mem hne)
      rw [List.head_dropWhile_not isspace hne] at hhead
      cases hhead
    exact List.dropWhile_eq_nil_iff.mp hd
  · intro h c hc
    exact h c ((List.dropWhile_suffix _).subset hc)

/-- A text is cut at the first place of a character. -/
theorem cut_at (h : c ∉ a) (r : List Char) :
    (a ++ c :: r).takeWhile (· != c) = a ∧ (a ++ c :: r).dropWhile (· != c) = c :: r := by
  have hall : ∀ d ∈ a, (d != c) = true := by
    intro d hd
    rw [bne_iff_ne]
    rintro rfl
    exact h hd
  rw [List.takeWhile_append_of_pos hall, List.dropWhile_append_of_pos hall]
  simp

/-! ## The normal form -/

@[simp] theorem strip_append (a r : List Char) : strip (a ++ r) = strip a ++ strip r := List.filter_append ..

theorem strip_cons_of_not (h : ¬ ignored c) (r : List Char) : strip (c :: r) = c :: strip r := by
  unfold strip
  rw [List.filter_cons_of_pos (by simpa using h)]

theorem strip_cons_of_ignored (h : ignored c) (r : List Char) : strip (c :: r) = strip r := by
  unfold strip
  rw [List.filter_cons_of_neg (by simpa using h)]

theorem unwrap_cons_of_ne (h : c ≠ '\n') (r : List Char) : unwrap (c :: r) = c :: unwrap r := by
  simp [unwrap, h]

theorem unwrap_append (h : '\n' ∉ a) (r : List Char) : unwrap (a ++ r) = a ++ unwrap r := by
  induction a with
  | nil => rfl
  | cons x t ih =>
    rw [List.mem_cons, not_or] at h
    rw [List.cons_append, unwrap_cons_of_ne (Ne.symm h.1), ih h.2]
    rfl

/-- What the flag is after a text. -/
def after (b : Bool) (u : List Char) : Bool := u.foldl (fun _ c => blank c) b

theorem collapse_blank (h : blank c) (b : Bool) (r : List Char) :
    collapse b (c :: r) = if b then collapse true r else ' ' :: collapse true r := by
  rw [collapse, if_pos h]

theorem collapse_other (h : ¬ blank c) (b : Bool) (r : List Char) : collapse b (c :: r) = c :: collapse false r := by
  rw [collapse, if_neg h]

theorem collapse_append (b : Bool) (u v : List Char) :
    collapse b (u ++ v) = collapse b u ++ collapse (after b u) v := by
  induction u generalizing b with
  | nil => rfl
  | cons c t ih =>
    have ha : after b (c :: t) = after (blank c) t := rfl
    rw [List.cons_append, ha]
    by_cases hc : blank c
    · rw [collapse_blank hc, collapse_blank hc, ih true, hc]
      cases b <;> rfl
    · rw [collapse_other hc, collapse_other hc, ih false, Bool.eq_false_iff.mpr hc]
      rfl

/-- A second blank adds nothing. -/
theorem collapse_blank_blank {d : Char} (hc : blank c) (hd : blank d) (b : Bool) (r : List Char) :
    collapse b (c :: d :: r) = collapse b (c :: r) := by
  simp [collapse_blank hc, collapse_blank hd]

theorem blank_space : blank ' ' := rfl

theorem blank_newline : ¬ blank '\n' := by decide

/-- A text of one line: its only spaces are single ones. -/
structure Spaced (l : List Char) : Prop where
  spaces : ∀ c ∈ l, isspace c → c = ' '
  single : l.IsChain fun c d => c = ' ' → d ≠ ' '

theorem Spaced.within (h : Spaced l) (ha : a <:+: l) : Spaced a :=
  ⟨fun c hc => h.spaces c (ha.subset hc), List.IsChain.infix h.single ha⟩

theorem Spaced.nil : Spaced [] := ⟨by simp, List.IsChain.nil⟩

theorem Spaced.append (ha : Spaced a) (hl : Spaced l)
    (h : ∀ x ∈ a.getLast?, ∀ y ∈ l.head?, x = ' ' → y ≠ ' ') : Spaced (a ++ l) := by
  refine ⟨fun c hc => ?_, ha.single.append hl.single h⟩
  rcases List.mem_append.mp hc with hc | hc
  · exact ha.spaces c hc
  · exact hl.spaces c hc

theorem Spaced.of_not_space (h : ¬ isspace c) : Spaced [c] := by
  refine ⟨fun d hd hs => ?_, List.IsChain.singleton c⟩
  rw [List.mem_singleton.mp hd] at hs
  exact absurd hs h

theorem Spaced.space : Spaced [' '] := ⟨fun _ hc _ => List.mem_singleton.mp hc, List.IsChain.singleton _⟩

theorem Spaced.push (ha : Spaced a) (h : ¬ isspace c) : Spaced (a ++ [c]) := by
  apply ha.append (Spaced.of_not_space h)
  intro x _ y hy _ hsp
  cases hy
  exact h (hsp ▸ rfl)

theorem Spaced.push_space (ha : Spaced a) (h : ∀ c ∈ a.getLast?, ¬ isspace c) : Spaced (a ++ [' ']) := by
  apply ha.append Spaced.space
  intro x hx _ _ hsp
  exact absurd (hsp ▸ rfl) (h x hx)

theorem Spaced.before_space (h : Spaced (a ++ [' '])) : ∀ c ∈ a.getLast?, ¬ isspace c := by
  intro c hc hs
  have hsp : c = ' ' := h.spaces c (List.mem_append_left _ (List.mem_of_getLast? hc)) hs
  exact (List.isChain_append.mp h.single).2.2 c hc ' ' rfl hsp rfl

theorem Spaced.newline (h : Spaced l) : '\n' ∉ l := fun hn => absurd (h.spaces _ hn rfl) (by decide)

theorem Spaced.strip_eq (h : Spaced l) : strip l = l := by
  unfold strip
  rw [List.filter_eq_self]
  intro c hc
  have hs := h.spaces c hc
  by_contra hi
  have hi' : ignored c := by simpa using hi
  have hsp : isspace c := by
    unfold ignored at hi'
    unfold isspace
    simp only [Bool.or_eq_true] at hi' ⊢
    tauto
  rw [hs hsp] at hi'
  exact absurd hi' (by decide)

theorem Spaced.not_tab (h : Spaced l) (hc : c ∈ l) (hb : blank c) : c = ' ' := by
  apply h.spaces c hc
  unfold blank at hb
  unfold isspace
  simp only [Bool.or_eq_true] at hb ⊢
  tauto

theorem Spaced.collapse_eq (h : Spaced l) (b : Bool) (hb : b = true → l.head? ≠ some ' ') : collapse b l = l := by
  induction l generalizing b with
  | nil => rfl
  | cons c t ih =>
    have ht : Spaced t := h.within (List.suffix_cons c t).isInfix
    by_cases hc : blank c
    · have hsp := h.not_tab List.mem_cons_self hc
      subst hsp
      have hbf : b = false := by
        cases b with
        | false => rfl
        | true => exact absurd rfl (hb rfl)
      rw [collapse_blank hc, hbf, if_neg (by decide), ih ht true]
      intro _ hhead
      have hch := h.single
      cases t with
      | nil => cases hhead
      | cons d u => exact (List.isChain_cons_cons.mp hch).1 rfl (Option.some.inj hhead)
    · rw [collapse_other hc, ih ht false (fun h => absurd h (by decide))]

/-- The start of a text that is one line stays as it is; the rest depends on its last character alone. -/
theorem Spaced.normal_append (h : Spaced a) (r : List Char) :
    normal (a ++ r) = a ++ collapse (after false a) (unwrap (strip r)) := by
  unfold normal
  rw [strip_append, h.strip_eq, unwrap_append h.newline, collapse_append,
    h.collapse_eq false (fun h => absurd h (by decide))]

/-! ## The lines of a text whose start is one line -/

/-- Two rests after which the text has the same normal form, after any start. -/
theorem lines_congr (ha : Spaced a) {r' : List Char}
    (h : ∀ b, collapse b (unwrap (strip r)) = collapse b (unwrap (strip r'))) : lines (a ++ r) = lines (a ++ r') := by
  unfold lines
  rw [ha.normal_append, ha.normal_append, h]

theorem not_ignored_of_blank (h : blank c) : ¬ ignored c ∧ c ≠ '\n' := by
  unfold blank at h
  rw [Bool.or_eq_true, beq_iff_eq, beq_iff_eq] at h
  rcases h with rfl | rfl <;> decide

theorem lines_blank (ha : Spaced a) (h : blank c) (r : List Char) : lines (a ++ c :: r) = lines (a ++ ' ' :: r) := by
  apply lines_congr ha
  intro b
  have hc := not_ignored_of_blank h
  rw [strip_cons_of_not hc.1, unwrap_cons_of_ne hc.2, strip_cons_of_not (by decide),
    unwrap_cons_of_ne (by decide), collapse_blank h, collapse_blank blank_space]

theorem lines_space_blank (ha : Spaced a) (h : blank c) (r : List Char) :
    lines (a ++ ' ' :: c :: r) = lines (a ++ ' ' :: r) := by
  apply lines_congr ha
  intro b
  have hc := not_ignored_of_blank h
  rw [strip_cons_of_not (by decide), strip_cons_of_not hc.1, unwrap_cons_of_ne (by decide),
    unwrap_cons_of_ne hc.2, strip_cons_of_not (by decide), unwrap_cons_of_ne (by decide),
    collapse_blank_blank blank_space h]

/-- A newline and a blank are one space: the line goes on. -/
theorem lines_newline_blank (ha : Spaced a) (h : blank c) (r : List Char) :
    lines (a ++ '\n' :: c :: r) = lines (a ++ ' ' :: r) := by
  apply lines_congr ha
  intro b
  have hc := not_ignored_of_blank h
  have hu : unwrap ('\n' :: c :: strip r) = ' ' :: c :: unwrap (strip r) := by
    rw [unwrap, unwrap_cons_of_ne hc.2, if_pos ⟨rfl, by simpa using h⟩]
  rw [strip_cons_of_not (by decide), strip_cons_of_not hc.1, hu, strip_cons_of_not (by decide),
    unwrap_cons_of_ne (by decide), collapse_blank_blank blank_space h]

theorem lines_ignored (a : List Char) (h : ignored c) (r : List Char) : lines (a ++ c :: r) = lines (a ++ r) := by
  unfold lines normal
  rw [strip_append, strip_append, strip_cons_of_ignored h]

theorem lines_ne_nil (s : List Char) : lines s ≠ [] := by
  unfold lines
  rw [Ne, List.map_eq_nil_iff]
  exact List.splitOn_ne_nil _ _

theorem splitOn_single (h : '\n' ∉ a) : a.splitOn '\n' = [a] := by
  apply List.splitOnP_eq_singleton
  intro x hx
  rw [beq_eq_false_iff_ne]
  rintro rfl
  exact h hx

/-- A line by itself. -/
theorem Spaced.lines_eq (h : Spaced a) : lines a = [trim a] := by
  have hn := h.normal_append []
  rw [List.append_nil] at hn
  unfold lines
  rw [hn]
  have : collapse (after false a) (unwrap (strip [])) = [] := rfl
  rw [this, List.append_nil, splitOn_single h.newline]
  rfl

/-- A newline ends a line when no blank follows it. -/
theorem lines_newline (ha : Spaced a) (hr : ¬ (strip r).head?.any blank) :
    lines (a ++ '\n' :: r) = trim a :: lines r := by
  have hu : unwrap (strip ('\n' :: r)) = '\n' :: unwrap (strip r) := by
    rw [strip_cons_of_not (by decide), unwrap, if_neg (by simp_all)]
  unfold lines
  rw [ha.normal_append, hu, collapse_other blank_newline, List.splitOn_append_cons_self, splitOn_single ha.newline]
  rfl

theorem not_blank_of_not_space (h : ¬ isspace c) (r : List Char) : ¬ (strip (c :: r)).head?.any blank := by
  have hi : ¬ ignored c ∧ ¬ blank c := by
    unfold isspace at h
    unfold ignored blank
    simp only [Bool.or_eq_true, beq_iff_eq] at h ⊢
    tauto
  rw [strip_cons_of_not hi.1]
  simpa using hi.2

/-- A space before a newline is no part of the line. -/
theorem lines_space_newline (ha : Spaced (a ++ [' '])) (r : List Char) :
    lines (a ++ ' ' :: '\n' :: r) = lines (a ++ '\n' :: r) := by
  have ha' : Spaced a := ha.within (List.prefix_append _ _).isInfix
  by_cases hr : (strip r).head?.any blank
  · -- the line goes on, and the two spaces are one
    apply lines_congr ha'
    intro b
    have hu : unwrap (strip ('\n' :: r)) = ' ' :: unwrap (strip r) := by
      rw [strip_cons_of_not (by decide), unwrap, if_pos ⟨rfl, hr⟩]
    rw [strip_cons_of_not (by decide), unwrap_cons_of_ne (by decide), hu,
      collapse_blank_blank blank_space blank_space]
  · have he : a ++ ' ' :: '\n' :: r = (a ++ [' ']) ++ '\n' :: r := by simp
    rw [he, lines_newline ha hr, lines_newline ha' hr, trim_append_space (by decide)]

/-- Of two newlines the second gives no more than an empty line. -/
theorem lines_newline_newline (ha : Spaced a) (r : List Char) :
    lines (a ++ '\n' :: '\n' :: r) = trim a :: lines r ∨
      lines (a ++ '\n' :: '\n' :: r) = trim a :: [] :: lines r := by
  have hh : ¬ (strip ('\n' :: r)).head?.any blank := by
    rw [strip_cons_of_not (by decide)]
    exact blank_newline
  rw [lines_newline ha hh]
  by_cases hr : (strip r).head?.any blank
  · left
    congr 1
    -- the second newline is a space at the start of the next line
    cases hs : strip r with
    | nil => rw [hs] at hr; cases hr
    | cons d t =>
      rw [hs] at hr
      have hd : blank d := by simpa using hr
      unfold lines normal
      rw [strip_cons_of_not (by decide), hs, unwrap, if_pos ⟨rfl, by simpa using hd⟩,
        unwrap_cons_of_ne (not_ignored_of_blank hd).2, collapse_blank_blank blank_space hd,
        collapse_blank blank_space, collapse_blank hd]
  · right
    exact congrArg _ (lines_newline Spaced.nil hr)

/-! ## Each line of a text -/

theorem mem_unwrap (h : c ∈ unwrap s) : c = ' ' ∨ c ∈ s := by
  induction s with
  | nil => cases h
  | cons d t ih =>
    rw [unwrap, List.mem_cons] at h
    rcases h with h | h
    · split at h
      · exact .inl h
      · exact .inr (h ▸ List.mem_cons_self)
    · exact (ih h).imp id (List.mem_cons_of_mem d)

theorem mem_collapse {b : Bool} (h : c ∈ collapse b s) : c = ' ' ∨ c ∈ s ∧ ¬ blank c := by
  induction s generalizing b with
  | nil => cases h
  | cons d t ih =>
    by_cases hd : blank d
    · have hc : c = ' ' ∨ c ∈ collapse true t := by
        rw [collapse_blank hd] at h
        split at h
        · exact .inr h
        · exact List.mem_cons.mp h
      rcases hc with hc | hc
      · exact .inl hc
      · exact (ih hc).imp id fun h => ⟨List.mem_cons_of_mem d h.1, h.2⟩
    · rw [collapse_other hd, List.mem_cons] at h
      rcases h with rfl | h
      · exact .inr ⟨List.mem_cons_self, hd⟩
      · exact (ih h).imp id fun h => ⟨List.mem_cons_of_mem d h.1, h.2⟩

theorem head?_collapse (s : List Char) : (collapse true s).head? ≠ some ' ' := by
  induction s with
  | nil => exact fun h => absurd h (by decide)
  | cons d t ih =>
    by_cases hd : blank d
    · rw [collapse_blank hd, if_pos rfl]
      exact ih
    · rw [collapse_other hd]
      intro h
      exact hd (Option.some.inj h ▸ rfl)

theorem collapse_single (b : Bool) (s : List Char) :
    (collapse b s).IsChain fun c d => c = ' ' → d ≠ ' ' := by
  induction s generalizing b with
  | nil => exact List.IsChain.nil
  | cons d t ih =>
    by_cases hd : blank d
    · rw [collapse_blank hd]
      split
      · exact ih true
      · refine List.isChain_cons.mpr ⟨fun y hy _ hsp => ?_, ih true⟩
        exact head?_collapse t (hsp ▸ hy)
    · rw [collapse_other hd]
      refine List.isChain_cons.mpr ⟨fun _ _ hsp => ?_, ih false⟩
      exact absurd (hsp ▸ rfl) hd

theorem mem_splitOn (s l : List Char) (h : l ∈ s.splitOn '\n') : l <:+: s ∧ '\n' ∉ l := by
  by_cases hn : '\n' ∈ s
  · obtain ⟨u, v, hs, hu⟩ := List.eq_append_cons_of_mem hn
    rw [hs, List.splitOn_append_cons_self, splitOn_single hu, List.singleton_append, List.mem_cons] at h
    rcases h with rfl | h
    · exact ⟨hs ▸ (List.prefix_append _ _).isInfix, hu⟩
    · have ih := mem_splitOn v l h
      refine ⟨ih.1.trans ?_, ih.2⟩
      rw [hs]
      exact ((List.suffix_cons _ v).trans (List.suffix_append u _)).isInfix
  · rw [splitOn_single hn, List.mem_singleton] at h
    exact ⟨h ▸ List.infix_rfl, h ▸ hn⟩
termination_by s.length
decreasing_by
  rw [hs, List.length_append, List.length_cons]
  omega

/-- Each line of a text is one line, and trimmed. -/
theorem spaced_of_mem_lines (h : l ∈ lines s) : Spaced l ∧ trim l = l := by
  obtain ⟨u, hu, rfl⟩ := List.mem_map.mp h
  obtain ⟨hin, hn⟩ := mem_splitOn _ u hu
  refine ⟨Spaced.within ⟨?_, List.IsChain.infix (collapse_single _ _) hin⟩ (trim_within u), trim_trim u⟩
  intro c hc hs
  rcases mem_collapse (hin.subset hc) with rfl | ⟨hc', hb⟩
  · rfl
  · rcases mem_unwrap hc' with rfl | hst
    · rfl
    · rcases isspace_cases hs with h | h | h
      · exact absurd h hb
      · exact absurd (h ▸ hc) hn
      · have := (List.mem_filter.mp hst).2
        simp [h] at this

theorem head?_strip (hl : Spaced l) (ht : trim l = l) (r : List Char) : ¬ (strip (l ++ '\n' :: r)).head?.any blank := by
  cases l with
  | nil =>
    rw [List.nil_append, strip_cons_of_not (by decide)]
    exact blank_newline
  | cons c t => exact not_blank_of_not_space (trim_head (c :: t) c (by rw [ht]; rfl)) _

/-- Lines that are written one after the other are the lines of the text, with an empty one at its end. -/
theorem lines_flatMap {ls : List (List Char)} (h : ∀ l ∈ ls, Spaced l ∧ trim l = l) :
    lines (ls.flatMap (· ++ ['\n'])) = ls ++ [[]] := by
  induction ls with
  | nil => rfl
  | cons l ls ih =>
    obtain ⟨hs, ht⟩ := h l List.mem_cons_self
    have htail := fun l' hl' => h l' (List.mem_cons_of_mem l hl')
    have hhead : ¬ (strip (ls.flatMap (· ++ ['\n']))).head?.any blank := by
      cases ls with
      | nil => exact Bool.false_ne_true
      | cons l' ls =>
        obtain ⟨hs', ht'⟩ := htail l' List.mem_cons_self
        rw [List.flatMap_cons, List.append_assoc]
        exact head?_strip hs' ht' _
    rw [List.flatMap_cons, List.append_assoc, List.singleton_append, lines_newline hs hhead, ih htail, ht]
    rfl

end Text
