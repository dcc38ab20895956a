-- The configuration file (config/config.cpp): `operator>>` reads it character
-- by character, `operator<<` prints it. The reading is compared with the line
-- grammar that the file is written in.
import Cloudbus.Lib.Ordered
import Cloudbus.Lib.Text
import Mathlib.Data.Char
import Mathlib.Data.List.Lex

open Text

namespace cloudbus.config

abbrev Section := List (List Char × List Char)

/-- `sections_type`: a map, kept in the order of the headings. -/
abbrev Sections := List (List Char × Section)

def try_emplace (heading : List Char) (sections : Sections) : Sections :=
  match Ordered.get Prod.fst heading sections with
  | some _ => sections
  | none => Ordered.place Prod.fst (heading, []) sections

def emplace_back (heading : List Char) (kv : List Char × List Char) (sections : Sections) : Sections :=
  Ordered.adjust Prod.fst heading (fun e => (e.1, e.2 ++ [kv])) sections

/-- `parse_line`, with the heading and the sections that it leaves. There is no result where
`at` throws, and where the scan for the end of the key runs out of the front of the line. -/
def parse_line (line heading : List Char) (sections : Sections) : Option (List Char × Sections) :=
  match trim line with
  | [] => some (heading, sections)
  | start :: rest =>
    if start = '[' ∧ (start :: rest).getLast? = some ']' then
      if trim rest.dropLast = [] then some (heading, sections)
      else some (trim rest.dropLast, try_emplace (trim rest.dropLast) sections)
    else if sections = [] then some (heading, sections)
    else
      match Ordered.get Prod.fst heading sections with
      | none => none
      | some _ =>
        match (start :: rest).dropWhile (· != '=') with
        | [] => some (heading, sections)
        | _ :: value =>
          if value.dropWhile isspace = [] then some (heading, sections)
          else if (start :: rest).takeWhile (· != '=') = [] then none
          else
            let key := ((start :: rest).takeWhile (· != '=')).rdropWhile isspace
            some (heading, emplace_back heading (key, value.dropWhile isspace) sections)

/-- What `operator>>` keeps from one character to the next. -/
structure Parser where
  line : List Char := []
  heading : List Char := []
  sections : Sections := []

/-- `parse_line`, which clears the line. -/
def Parser.flush (p : Parser) : Option Parser :=
  (parse_line p.line p.heading p.sections).map fun r => ⟨[], r.1, r.2⟩

/-- `line.empty() || !std::isspace(line.back())` -/
def Parser.open_end (p : Parser) : Bool := p.line.getLast?.all fun c => !isspace c

/-- The body of the loop over the characters. -/
def Parser.next (p : Parser) (c : Char) : Option Parser :=
  if ¬ isspace c then
    (if p.line.getLast? = some '\n' then p.flush else some p).map fun p => { p with line := p.line ++ [c] }
  else if c = ' ' ∨ c = '\t' then
    if p.open_end then some { p with line := p.line ++ [' '] }
    else some { p with line := p.line.dropLast ++ [' '] }
  else if c = '\n' then
    if p.open_end then some { p with line := p.line ++ ['\n'] }
    else if p.line.getLast? = some '\n' then p.flush
    else some { p with line := p.line.dropLast ++ ['\n'] }
  else some p

/-- After the last block. -/
def Parser.finish (p : Parser) : Option Sections :=
  if p.line.getLast? = some '\n' then p.flush.map Parser.sections else some p.sections

/-- `operator>>`: the blocks that `is.read` fills, one after the other. -/
def read (blocks : List (List Char)) : Option Sections :=
  (blocks.foldlM (fun p block => List.foldlM Parser.next p block) ({} : Parser)).bind Parser.finish

def print_section (e : List Char × Section) : List Char :=
  '[' :: e.1 ++ ']' :: '\n' :: (e.2.flatMap fun kv => kv.1 ++ '=' :: kv.2 ++ ['\n']) ++ ['\n']

/-- `operator<<` -/
def print (sections : Sections) : List Char := sections.flatMap print_section

/-! ## The line grammar -/

/-- `[h]`, with something in it. -/
def heading? (l : List Char) : Option (List Char) :=
  match l with
  | '[' :: t => if t.getLast? = some ']' ∧ trim t.dropLast ≠ [] then some (trim t.dropLast) else none
  | _ => none

/-- `k=v`, cut at the first `=`, with something after it. -/
def assignment? (l : List Char) : Option (List Char × List Char) :=
  match l.dropWhile (· != '=') with
  | [] => none
  | _ :: v => if trim v = [] then none else some (trim (l.takeWhile (· != '=')), trim v)

/-- The reading of some lines: the section that is open, and what the sections hold. -/
structure Reading where
  current : Option (List Char) := none
  sections : List Char → Option Section := fun _ => none

def Reading.line (r : Reading) (l : List Char) : Reading :=
  match heading? l with
  | some h => ⟨some h, Function.update r.sections h (some ((r.sections h).getD []))⟩
  | none =>
    match r.current, assignment? l with
    | some h, some kv => { r with sections := Function.update r.sections h (some ((r.sections h).getD [] ++ [kv])) }
    | _, _ => r

def Reading.lines (r : Reading) (ls : List (List Char)) : Reading := ls.foldl Reading.line r

/-- The sections of a text, as its grammar gives them. -/
def grammar (s : List Char) : List Char → Option Section := (({} : Reading).lines (Text.lines s)).sections

/-- What the sections hold under a heading. -/
def find (sections : Sections) (heading : List Char) : Option Section :=
  (Ordered.get Prod.fst heading sections).map Prod.snd

/-- `=v`: the key is empty. -/
def EmptyKey (l : List Char) : Prop := l.head? = some '='

/-! ## The characters one by one

The line that the parser holds is text that is yet to be read: to go on from it with some more text
is to read the logical lines of the two together. -/

/-- `parse_line` as one step of a fold over lines. -/
def enter (r : List Char × Sections) (l : List Char) : Option (List Char × Sections) := parse_line l r.1 r.2

/-- The lines that a newline ends, entered one after the other. -/
def enter_lines (r : List Char × Sections) (s : List Char) : Option Sections :=
  ((Text.lines s).dropLast.foldlM enter r).map Prod.snd

theorem parse_line_trim (line heading : List Char) (sections : Sections) :
    parse_line (trim line) heading sections = parse_line line heading sections := by
  unfold parse_line
  rw [trim_trim]

/-- What the parser can hold: a line with its last character a space or not, or an ended line. -/
inductive Pending : List Char → Prop
  | text {a} : Spaced a → (∀ c ∈ a.getLast?, ¬ isspace c) → Pending a
  | space {a} : Spaced (a ++ [' ']) → Pending (a ++ [' '])
  | newline {a} : Spaced a → (∀ c ∈ a.getLast?, ¬ isspace c) → Pending (a ++ ['\n'])

variable {p q : Parser} {l : List Char} {st : List Char × Sections} {r : Reading}

/-- When the line that is flushed is the first of the lines, the others are left, and an empty line
before them does nothing. -/
theorem Parser.flush_enter {a s t : List Char} (hl : p.line = a ++ ['\n'])
    (hs : Text.lines s = trim a :: Text.lines t ∨ Text.lines s = trim a :: [] :: Text.lines t) :
    (p.flush.bind fun q => enter_lines (q.heading, q.sections) (q.line ++ t)) =
      enter_lines (p.heading, p.sections) s := by
  have hline : parse_line p.line p.heading p.sections = enter (p.heading, p.sections) (trim a) := by
    rw [hl, enter, parse_line_trim, ← parse_line_trim, trim_append_space rfl, parse_line_trim]
  have hlines : enter_lines (p.heading, p.sections) s =
      (enter (p.heading, p.sections) (trim a)).bind fun r => enter_lines r t := by
    unfold enter_lines
    rcases hs with hs | hs
    · rw [hs, List.dropLast_cons_of_ne_nil (lines_ne_nil t), List.foldlM_cons]
      cases enter (p.heading, p.sections) (trim a) <;> rfl
    · rw [hs, List.dropLast_cons_of_ne_nil (List.cons_ne_nil _ _), List.dropLast_cons_of_ne_nil (lines_ne_nil t),
        List.foldlM_cons]
      cases enter (p.heading, p.sections) (trim a) <;> rfl
  rw [hlines, flush, hline]
  cases enter (p.heading, p.sections) (trim a) <;> rfl

theorem getLast?_ne_newline (h : ∀ c ∈ l.getLast?, ¬ isspace c) : l.getLast? ≠ some '\n' := by
  intro hl
  exact h _ hl rfl

section Next

variable {p : Parser} {c : Char}

theorem Parser.next_text (h : ¬ isspace c) :
    p.next c = (if p.line.getLast? = some '\n' then p.flush else some p).map
      fun p => { p with line := p.line ++ [c] } := by
  rw [next, if_pos h]

theorem Parser.next_blank (h : blank c) :
    p.next c = some { p with line := (if p.open_end then p.line else p.line.dropLast) ++ [' '] } := by
  have hc : c = ' ' ∨ c = '\t' := by simpa [blank] using h
  have hs : isspace c := by rcases hc with rfl | rfl <;> rfl
  rw [next, if_neg (not_not.mpr hs), if_pos hc]
  split <;> rfl

theorem Parser.next_newline : p.next '\n' =
    if p.open_end then some { p with line := p.line ++ ['\n'] }
    else if p.line.getLast? = some '\n' then p.flush
    else some { p with line := p.line.dropLast ++ ['\n'] } := rfl

theorem Parser.next_ignored (h : ignored c) : p.next c = some p := by
  have hc : (c = '\r' ∨ c = '\x0b') ∨ c = '\x0c' := by simpa [ignored] using h
  rcases hc with (rfl | rfl) | rfl <;> rfl

theorem Parser.open_end_text (h : ∀ c ∈ p.line.getLast?, ¬ isspace c) : p.open_end := by
  unfold open_end
  cases hl : p.line.getLast? with
  | none => rfl
  | some d => simpa using h d hl

theorem Parser.open_end_space {a : List Char} {d : Char} (hl : p.line = a ++ [d]) (hd : isspace d) :
    p.open_end = false := by
  unfold open_end
  rw [hl, List.getLast?_concat]
  simpa using hd

end Next

/-- One character: the parser that is left reads the rest as the lines with the character in front. -/
theorem Parser.next_enter (hp : Pending p.line) (c : Char) (t : List Char) :
    ((p.next c).bind fun q => enter_lines (q.heading, q.sections) (q.line ++ t)) =
      enter_lines (p.heading, p.sections) (p.line ++ c :: t) := by
  -- the text in front has the same lines after the character as the line that the parser goes on with
  have stay : ∀ l : List Char, Text.lines (l ++ t) = Text.lines (p.line ++ c :: t) →
      ((some { p with line := l }).bind fun q => enter_lines (q.heading, q.sections) (q.line ++ t)) =
        enter_lines (p.heading, p.sections) (p.line ++ c :: t) := by
    intro l hl
    simp only [Option.bind_some, enter_lines, hl]
  have push : ∀ d, (p.line ++ [d]) ++ t = p.line ++ d :: t := by simp
  by_cases hc : isspace c
  · rcases isspace_cases hc with hb | rfl | hi
    · rw [next_blank hb]
      apply stay
      generalize hl : p.line = l at hp
      cases hp with
      | text ha hlast =>
        rw [open_end_text (hl ▸ hlast), if_pos rfl, List.append_assoc]
        exact (lines_blank ha hb t).symm
      | @space a ha =>
        rw [open_end_space hl rfl, if_neg Bool.false_ne_true, List.dropLast_concat, List.append_assoc,
          List.append_assoc]
        exact (lines_space_blank (ha.within (List.prefix_append _ _).isInfix) hb t).symm
      | @newline a ha hlast =>
        rw [open_end_space hl rfl, if_neg Bool.false_ne_true, List.dropLast_concat, List.append_assoc,
          List.append_assoc]
        exact (lines_newline_blank ha hb t).symm
    · rw [next_newline]
      generalize hl : p.line = l at hp
      cases hp with
      | text ha hlast =>
        rw [open_end_text (hl ▸ hlast), if_pos rfl, ← hl]
        apply stay
        rw [push]
      | @space a ha =>
        rw [open_end_space hl rfl, if_neg Bool.false_ne_true, List.getLast?_concat, if_neg (by decide),
          List.dropLast_concat, ← hl]
        apply stay
        rw [hl, List.append_assoc, List.append_assoc]
        exact (lines_space_newline ha t).symm
      | @newline a ha hlast =>
        rw [open_end_space hl rfl, if_neg Bool.false_ne_true, List.getLast?_concat, if_pos rfl, List.append_assoc]
        exact flush_enter hl (lines_newline_newline ha t)
    · rw [next_ignored hi]
      apply stay p.line
      exact (lines_ignored p.line hi t).symm
  · rw [next_text hc]
    by_cases hn : p.line.getLast? = some '\n'
    · -- a new line starts, so the one before is complete
      rw [if_pos hn]
      generalize hl : p.line = l at hp
      rw [hl] at hn
      cases hp with
      | text _ hlast => exact absurd hn (getLast?_ne_newline hlast)
      | space _ => rw [List.getLast?_concat] at hn; cases hn
      | @newline a ha hlast =>
        have hs := lines_newline ha (not_blank_of_not_space hc t)
        rw [List.append_assoc, List.singleton_append, ← flush_enter hl (.inl hs)]
        cases p.flush with
        | none => rfl
        | some q => simp
    · rw [if_neg hn]
      apply stay
      rw [push]

theorem Parser.flush_line (h : p.flush = some q) : q.line = [] := by
  obtain ⟨r, -, rfl⟩ := Option.map_eq_some_iff.mp h
  rfl

theorem Pending.nil : Pending [] := .text Spaced.nil (by simp)

theorem Pending.next {c : Char} (hp : Pending p.line) (hq : p.next c = some q) : Pending q.line := by
  by_cases hc : isspace c
  · rcases isspace_cases hc with hb | rfl | hi
    · rw [Parser.next_blank hb] at hq
      cases hq
      generalize hl : p.line = l at hp
      cases hp with
      | text ha hlast =>
        simp only [Parser.open_end_text (hl ▸ hlast), if_true]
        exact .space (ha.push_space hlast)
      | @space a ha =>
        simp only [Parser.open_end_space hl rfl, Bool.false_eq_true, if_false, List.dropLast_concat]
        exact .space ha
      | @newline a ha hlast =>
        simp only [Parser.open_end_space hl rfl, Bool.false_eq_true, if_false, List.dropLast_concat]
        exact .space (ha.push_space hlast)
    · rw [Parser.next_newline] at hq
      generalize hl : p.line = l at hp
      cases hp with
      | text ha hlast =>
        rw [Parser.open_end_text (hl ▸ hlast), if_pos rfl, hl] at hq
        cases hq
        exact .newline ha hlast
      | @space a ha =>
        rw [Parser.open_end_space hl rfl, if_neg Bool.false_ne_true, hl, List.getLast?_concat, if_neg (by decide),
          List.dropLast_concat] at hq
        cases hq
        exact .newline (ha.within (List.prefix_append _ _).isInfix) ha.before_space
      | @newline a ha hlast =>
        rw [Parser.open_end_space hl rfl, if_neg Bool.false_ne_true, hl, List.getLast?_concat, if_pos rfl] at hq
        rw [Parser.flush_line hq]
        exact .nil
    · rw [Parser.next_ignored hi] at hq
      cases hq
      exact hp
  · rw [Parser.next_text hc] at hq
    obtain ⟨p', hp', rfl⟩ := Option.map_eq_some_iff.mp hq
    have hlast : ∀ d ∈ (p'.line ++ [c]).getLast?, ¬ isspace d := by
      intro d hd
      rw [List.getLast?_concat] at hd
      cases hd
      exact hc
    refine .text (Spaced.push ?_ hc) hlast
    split at hp'
    · rw [Parser.flush_line hp']
      exact Spaced.nil
    · rename_i hn
      cases hp'
      generalize p.line = l at hp hn
      cases hp with
      | text ha _ => exact ha
      | space ha => exact ha
      | newline _ _ => exact absurd (List.getLast?_concat ..) hn

/-- A line that is yet to be read, and then some text: the lines of the two, but for the last. -/
theorem Parser.read_rest (hp : Pending p.line) (t : List Char) :
    (t.foldlM Parser.next p).bind Parser.finish = enter_lines (p.heading, p.sections) (p.line ++ t) := by
  induction t generalizing p with
  | nil =>
    rw [List.append_nil]
    show p.finish = _
    unfold finish
    generalize hl : p.line = l at hp
    cases hp with
    | text ha hlast =>
      rw [if_neg (getLast?_ne_newline hlast), enter_lines, ha.lines_eq]
      rfl
    | space ha =>
      rw [if_neg (by rw [List.getLast?_concat]; decide), enter_lines, ha.lines_eq]
      rfl
    | @newline a ha _ =>
      rw [if_pos List.getLast?_concat]
      have hs : Text.lines (a ++ ['\n']) = trim a :: Text.lines [] := lines_newline ha (by decide)
      rw [← flush_enter hl (.inl hs)]
      cases hf : p.flush with
      | none => rfl
      | some q => simp only [Option.map_some, Option.bind_some, flush_line hf]; rfl
  | cons c t ih =>
    rw [← next_enter hp, List.foldlM_cons]
    cases hq : p.next c with
    | none => rfl
    | some q => exact ih (hp.next hq)

/-- The blocks only cut the text, and of its lines all are entered but for the last. -/
theorem read_eq (blocks : List (List Char)) : read blocks = enter_lines ([], []) blocks.flatten := by
  have hb : ∀ p : Parser, blocks.foldlM (fun p block => List.foldlM Parser.next p block) p =
      blocks.flatten.foldlM Parser.next p := by
    induction blocks with
    | nil => intro p; rfl
    | cons b bs ih =>
      intro p
      rw [List.foldlM_cons, List.flatten_cons, List.foldlM_append]
      congr 1
      funext q
      exact ih q
  rw [read, hb]
  exact Parser.read_rest .nil _

/-! ## A line

What `parse_line` does to the sections, in the words of the grammar. -/

theorem heading?_cons (start : Char) (rest : List Char) :
    heading? (start :: rest) =
      if start = '[' ∧ (start :: rest).getLast? = some ']' ∧ trim rest.dropLast ≠ [] then
        some (trim rest.dropLast)
      else none := by
  by_cases hs : start = '['
  · subst hs
    have hl : ('[' :: rest).getLast? = some ']' ↔ rest.getLast? = some ']' := by
      cases rest with
      | nil => decide
      | cons x t => rw [List.getLast?_cons_cons]
    simp only [heading?, hl, true_and]
  · rw [if_neg fun h => hs h.1]
    unfold heading?
    split
    · rename_i heq
      exact absurd (List.cons.inj heq).1 hs
    · rfl

/-- A line in brackets with nothing in them has no `=`. -/
theorem assignment?_brackets {start : Char} {rest : List Char} (hs : start = '[')
    (hl : (start :: rest).getLast? = some ']') (he : trim rest.dropLast = []) : assignment? (start :: rest) = none := by
  have hall : (start :: rest).dropWhile (· != '=') = [] := by
    rw [List.dropWhile_eq_nil_iff]
    intro c hc
    rw [bne_iff_ne]
    rintro rfl
    rw [hs, List.mem_cons] at hc
    rcases hc with hc | hc
    · cases hc
    · rw [hs] at hl
      have hne : rest ≠ [] := List.ne_nil_of_mem hc
      rw [← List.dropLast_append_getLast hne, List.mem_append] at hc
      rcases hc with hc | hc
      · exact absurd (trim_eq_nil.mp he _ hc) (by decide)
      · rw [List.getLast?_cons, Option.some_inj, List.getLast?_eq_getLast_of_ne_nil hne, Option.getD_some] at hl
        rw [hl] at hc
        exact absurd hc (by decide)
  unfold assignment?
  rw [hall]

/-- On a trimmed line the key has to be trimmed at its end alone, and the value at its start. -/
theorem assignment?_trimmed (hl : trim l = l) :
    assignment? l =
      match l.dropWhile (· != '=') with
      | [] => none
      | _ :: v =>
        if v.dropWhile isspace = [] then none
        else some ((l.takeWhile (· != '=')).rdropWhile isspace, v.dropWhile isspace) := by
  have hkey : trim (l.takeWhile (· != '=')) = (l.takeWhile (· != '=')).rdropWhile isspace := by
    apply trim_of_head
    intro c hc
    apply trim_head l c
    rw [hl]
    cases l with
    | nil => exact hc
    | cons x t =>
      rw [List.takeWhile_cons] at hc
      split at hc
      · exact hc
      · cases hc
  unfold assignment?
  cases hd : l.dropWhile (· != '=') with
  | nil => rfl
  | cons x v =>
    have hv : trim v = v.dropWhile isspace := by
      apply trim_of_last
      intro c hc
      apply trim_last l c
      rw [hl, ← List.takeWhile_append_dropWhile (p := (· != '=')) (l := l), hd]
      rw [List.getLast?_append, List.getLast?_cons, hc]
      rfl
    simp only [hkey, hv]

theorem takeWhile_key_eq_nil (h : l.dropWhile (· != '=') ≠ []) : l.takeWhile (· != '=') = [] ↔ l.head? = some '=' := by
  cases l with
  | nil => exact absurd rfl h
  | cons x t =>
    by_cases hx : x = '='
    · simp [hx]
    · simp [hx]

theorem parse_line_eq (line heading : List Char) (sections : Sections)
    (hk : sections ≠ [] → (Ordered.get Prod.fst heading sections).isSome) :
    parse_line line heading sections =
      match heading? (trim line) with
      | some h => some (h, try_emplace h sections)
      | none =>
        if sections = [] then some (heading, sections)
        else
          match assignment? (trim line) with
          | none => some (heading, sections)
          | some kv =>
            if (trim line).head? = some '=' then none else some (heading, emplace_back heading kv sections) := by
  have ha := assignment?_trimmed (trim_trim line)
  unfold parse_line
  cases hl : trim line with
  | nil => simp [heading?, assignment?]
  | cons start rest =>
    rw [hl] at ha
    by_cases hb : start = '[' ∧ (start :: rest).getLast? = some ']'
    · simp only [if_pos hb]
      by_cases he : trim rest.dropLast = []
      · have hn : heading? (start :: rest) = none := by
          rw [heading?_cons, if_neg fun h => h.2.2 he]
        simp only [if_pos he, hn, assignment?_brackets hb.1 hb.2 he, ite_self]
      · have hn : heading? (start :: rest) = some (trim rest.dropLast) := by
          rw [heading?_cons, if_pos ⟨hb.1, hb.2, he⟩]
        simp only [if_neg he, hn]
    · have hn : heading? (start :: rest) = none := by
        rw [heading?_cons, if_neg fun h => hb ⟨h.1, h.2.1⟩]
      simp only [if_neg hb, hn]
      by_cases hs : sections = []
      · simp only [if_pos hs]
      · obtain ⟨e, he⟩ := Option.isSome_iff_exists.mp (hk hs)
        simp only [if_neg hs, he, ha]
        cases hd : (start :: rest).dropWhile (· != '=') with
        | nil => rfl
        | cons eq value =>
          have hkey := takeWhile_key_eq_nil (l := start :: rest) (by rw [hd]; exact List.cons_ne_nil _ _)
          by_cases hv : value.dropWhile isspace = []
          · simp only [if_pos hv]
          · simp only [if_neg hv, hkey]

/-! ## The sections as a map -/

section Map

variable {S : Sections} {h : List Char}

theorem find_isSome : (find S h).isSome = (Ordered.get Prod.fst h S).isSome := Option.isSome_map

theorem ne_nil_of_find (hf : (find S h).isSome) : S ≠ [] := by
  rintro rfl
  cases hf

theorem try_emplace_ascending (hS : Ordered.Ascending Prod.fst S) (h : List Char) :
    Ordered.Ascending Prod.fst (try_emplace h S) := by
  unfold try_emplace
  split
  · exact hS
  · rename_i hn
    exact hS.place hn

theorem find_try_emplace (S : Sections) (h : List Char) :
    find (try_emplace h S) = Function.update (find S) h (some ((find S h).getD [])) := by
  funext x
  unfold find try_emplace
  by_cases hx : x = h
  · subst hx
    rw [Function.update_self]
    cases hg : Ordered.get Prod.fst x S with
    | none => rw [Ordered.get_place, if_pos rfl]; rfl
    | some e => rw [hg]; rfl
  · rw [Function.update_of_ne hx]
    cases hg : Ordered.get Prod.fst h S with
    | none => rw [Ordered.get_place, if_neg (Ne.symm hx)]
    | some e => rfl

theorem emplace_back_ascending (hS : Ordered.Ascending Prod.fst S) (h : List Char) (kv : List Char × List Char) :
    Ordered.Ascending Prod.fst (emplace_back h kv S) := hS.adjust fun _ => rfl

theorem find_emplace_back (hS : Ordered.Ascending Prod.fst S) (hf : (find S h).isSome) (kv : List Char × List Char) :
    find (emplace_back h kv S) = Function.update (find S) h (some ((find S h).getD [] ++ [kv])) := by
  funext x
  unfold find emplace_back
  rw [hS.get_adjust (f := fun e => (e.1, e.2 ++ [kv])) fun _ => rfl]
  by_cases hx : x = h
  · subst hx
    rw [if_pos rfl, Function.update_self]
    rw [find_isSome] at hf
    obtain ⟨e, he⟩ := Option.isSome_iff_exists.mp hf
    rw [he]
    rfl
  · rw [if_neg hx, Function.update_of_ne hx]

end Map

/-- The heading and the sections of the parser stand for a reading of some lines. -/
structure Represents (st : List Char × Sections) (r : Reading) : Prop where
  ascending : Ordered.Ascending Prod.fst st.2
  known : st.2 ≠ [] → (find st.2 st.1).isSome
  current : r.current = if st.2 = [] then none else some st.1
  sections : find st.2 = r.sections

theorem Represents.start : Represents ([], []) {} :=
  ⟨List.Pairwise.nil, fun h => absurd rfl h, rfl, rfl⟩

/-- A line: the parser goes on with what the grammar says of it. -/
theorem Represents.line (hr : Represents st r) (hl : trim l = l)
    (hk : r.current ≠ none → assignment? l ≠ none → ¬ EmptyKey l) :
    ∃ st', enter st l = some st' ∧ Represents st' (r.line l) := by
  obtain ⟨heading, S⟩ := st
  have heq := parse_line_eq l heading S fun h => find_isSome ▸ hr.known h
  rw [hl] at heq
  unfold enter Reading.line
  rw [heq]
  cases hh : heading? l with
  | some h =>
    have hf : find (try_emplace h S) = Function.update r.sections h (some ((r.sections h).getD [])) := by
      rw [find_try_emplace, hr.sections]
    have hs : (find (try_emplace h S) h).isSome := by
      rw [hf, Function.update_self]
      rfl
    exact ⟨_, rfl, try_emplace_ascending hr.ascending h, fun _ => hs, (if_neg (ne_nil_of_find hs)).symm, hf⟩
  | none =>
    have hcur := hr.current
    by_cases hS : S = []
    · rw [if_pos hS] at hcur
      simp only [if_pos hS, hcur]
      exact ⟨_, rfl, hr⟩
    · rw [if_neg hS] at hcur
      simp only [if_neg hS, hcur]
      cases ha : assignment? l with
      | none => exact ⟨_, rfl, hr⟩
      | some kv =>
        have hf : find (emplace_back heading kv S) =
            Function.update r.sections heading (some ((r.sections heading).getD [] ++ [kv])) := by
          rw [find_emplace_back hr.ascending (hr.known hS), hr.sections]
        have hs : (find (emplace_back heading kv S) heading).isSome := by
          rw [hf, Function.update_self]
          rfl
        have hkey : ¬ l.head? = some '=' := hk (by rw [hcur]; exact Option.some_ne_none _) (by rw [ha]; exact Option.some_ne_none _)
        simp only [if_neg hkey]
        exact ⟨_, rfl, emplace_back_ascending hr.ascending heading kv, fun _ => hs,
          (if_neg (ne_nil_of_find hs)).symm, hf⟩

theorem Represents.lines (hr : Represents st r) {ls : List (List Char)}
    (hl : ∀ l ∈ ls, trim l = l)
    (hk : ∀ before l after, ls = before ++ l :: after → (r.lines before).current ≠ none → assignment? l ≠ none →
      ¬ EmptyKey l) :
    ∃ st', ls.foldlM enter st = some st' ∧ Represents st' (r.lines ls) := by
  induction ls generalizing st r with
  | nil => exact ⟨st, rfl, hr⟩
  | cons l ls ih =>
    obtain ⟨st₁, h₁, hr₁⟩ := hr.line (hl l List.mem_cons_self) (hk [] l ls rfl)
    obtain ⟨st', h', hr'⟩ := ih hr₁ (fun l' hl' => hl l' (List.mem_cons_of_mem l hl'))
      fun before l' after heq => hk (l :: before) l' after (by rw [heq]; rfl)
    refine ⟨st', ?_, hr'⟩
    rw [List.foldlM_cons, h₁]
    exact h'

/-- What is read is the reading of the lines that a newline ends. -/
theorem read_represents {blocks : List (List Char)} (hk : ∀ l ∈ Text.lines blocks.flatten, ¬ EmptyKey l) :
    ∃ st, (Text.lines blocks.flatten).dropLast.foldlM enter ([], []) = some st ∧ read blocks = some st.2 ∧
      Represents st (({} : Reading).lines (Text.lines blocks.flatten).dropLast) := by
  have hmem : ∀ l ∈ (Text.lines blocks.flatten).dropLast, l ∈ Text.lines blocks.flatten :=
    fun l hl => List.dropLast_subset _ hl
  obtain ⟨st, hst, hr⟩ := Represents.start.lines (fun l hl => (spaced_of_mem_lines (hmem l hl)).2)
    fun before l after heq _ _ => hk l (hmem l (by rw [heq]; simp))
  refine ⟨st, hst, ?_, hr⟩
  rw [read_eq, enter_lines, hst]
  rfl

/-- The last line, which no newline ends, changes no section. -/
def LastLineIdle (s : List Char) : Prop :=
  ∀ l ∈ (Text.lines s).getLast?,
    ((({} : Reading).lines (Text.lines s).dropLast).line l).sections =
      (({} : Reading).lines (Text.lines s).dropLast).sections

/-- The sections that are read are those of the grammar, when the last line is ended by a newline or
says nothing. -/
theorem the_parser_follows_its_grammar (blocks : List (List Char))
    (hkeys : ∀ l ∈ Text.lines blocks.flatten, ¬ EmptyKey l) (hlast : LastLineIdle blocks.flatten) :
    ∃ sections, read blocks = some sections ∧ Ordered.Ascending Prod.fst sections ∧
      ∀ heading, find sections heading = grammar blocks.flatten heading := by
  obtain ⟨st, -, hread, hr⟩ := read_represents hkeys
  refine ⟨st.2, hread, hr.ascending, fun heading => ?_⟩
  have hne := lines_ne_nil blocks.flatten
  have hidle := hlast _ (List.getLast?_eq_getLast_of_ne_nil hne)
  have hg : grammar blocks.flatten =
      ((({} : Reading).lines (Text.lines blocks.flatten).dropLast).line
        ((Text.lines blocks.flatten).getLast hne)).sections := by
    unfold grammar
    conv_lhs => rw [← List.dropLast_append_getLast hne]
    unfold Reading.lines
    rw [List.foldl_append]
    rfl
  rw [hr.sections, hg, hidle]

/-- A heading, a wrapped value and a repeated key: the text is read as its grammar says. -/
theorem a_wrapped_value_is_read :
    ∃ sections, read ["[a]\r\nk = v\n  w\n".toList, "k=x\n".toList] = some sections ∧
      Ordered.Ascending Prod.fst sections ∧
      ∀ heading, find sections heading = grammar "[a]\r\nk = v\n  w\nk=x\n".toList heading := by
  have hlines : Text.lines ["[a]\r\nk = v\n  w\n".toList, "k=x\n".toList].flatten =
      ["[a]".toList, "k = v w".toList, "k=x".toList, []] := by decide +kernel
  apply the_parser_follows_its_grammar
  · rw [hlines]
    intro l hl
    unfold EmptyKey
    revert l
    decide
  · unfold LastLineIdle
    rw [hlines]
    rintro l ⟨⟩
    rfl

/-- Without a newline at its end the last line is not read. -/
theorem the_last_line_is_lost :
    (∀ l ∈ Text.lines ["[a]\nk=v".toList].flatten, ¬ EmptyKey l) ∧
      read ["[a]\nk=v".toList] = some [("a".toList, [])] ∧
      grammar ["[a]\nk=v".toList].flatten "a".toList = some [("k".toList, "v".toList)] := by
  have hlines : Text.lines ["[a]\nk=v".toList].flatten = ["[a]".toList, "k=v".toList] := by decide +kernel
  refine ⟨?_, by decide +kernel, ?_⟩
  · rw [hlines]
    intro l hl
    unfold EmptyKey
    revert l
    decide
  · unfold grammar
    rw [hlines]
    rfl

end cloudbus.config
