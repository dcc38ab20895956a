-- What the parser can leave in a configuration, and that the printed
-- configuration is read back as it is.
import Cloudbus.Config

open Text

namespace cloudbus.config

/-- The texts that the parser cuts out of a line: not empty, trimmed, and on one line. -/
structure Tidy (t : List Char) : Prop where
  spaced : Spaced t
  trimmed : trim t = t
  nonempty : t ≠ []

/-- A key and a value that no other reading of their line gives: the key ends at the first `=`, and the
line is no heading. -/
structure Entry (kv : List Char × List Char) : Prop where
  key : Tidy kv.1
  value : Tidy kv.2
  cut : '=' ∉ kv.1
  plain : ¬ (kv.1.head? = some '[' ∧ kv.2.getLast? = some ']')

structure WellFormed (S : Sections) : Prop where
  ascending : Ordered.Ascending Prod.fst S
  headings : ∀ e ∈ S, Tidy e.1
  entries : ∀ e ∈ S, ∀ kv ∈ e.2, Entry kv

section Line

variable {l h : List Char} {kv : List Char × List Char}

theorem Tidy.of_trim (hl : Spaced l) (hi : h <:+: l) (hne : trim h ≠ []) : Tidy (trim h) :=
  ⟨hl.within ((trim_within h).trans hi), trim_trim h, hne⟩

theorem Tidy.head (ht : Tidy l) : ∀ c ∈ l.head?, ¬ isspace c := ht.trimmed ▸ trim_head l

theorem Tidy.last (ht : Tidy l) : ∀ c ∈ l.getLast?, ¬ isspace c := ht.trimmed ▸ trim_last l

/-- What a heading names is tidy. -/
theorem tidy_of_heading (hl : Spaced l) (hh : heading? l = some h) : Tidy h := by
  cases l with
  | nil => cases hh
  | cons start rest =>
    rw [heading?_cons] at hh
    split at hh
    · rename_i hb
      cases hh
      refine Tidy.of_trim hl ?_ hb.2.2
      exact (List.dropLast_prefix rest).isInfix.trans (List.suffix_cons start rest).isInfix
    · cases hh

theorem assignment?_eq_some :
    assignment? l = some kv ↔ ∃ k v, l = k ++ '=' :: v ∧ '=' ∉ k ∧ trim v ≠ [] ∧ kv = (trim k, trim v) := by
  constructor
  · intro ha
    unfold assignment? at ha
    cases hd : l.dropWhile (· != '=') with
    | nil => rw [hd] at ha; cases ha
    | cons x v =>
      rw [hd] at ha
      have hx : x = '=' := by
        have h := List.head?_dropWhile_not (· != '=') l
        rw [hd] at h
        simpa using h
      have hl : l = l.takeWhile (· != '=') ++ '=' :: v := by
        have h := (List.takeWhile_append_dropWhile (p := (· != '=')) (l := l)).symm
        rwa [hd, hx] at h
      refine ⟨l.takeWhile (· != '='), v, hl, ?_, ?_⟩
      · intro hm
        have := List.mem_takeWhile_imp hm
        simp at this
      · dsimp only at ha
        split at ha
        · cases ha
        · rename_i hv
          exact ⟨hv, (Option.some.inj ha).symm⟩
  · rintro ⟨k, v, rfl, hk, hv, rfl⟩
    unfold assignment?
    rw [(cut_at hk v).1, (cut_at hk v).2]
    simp only [if_neg hv]

/-- A line that assigns, with a key, gives an entry. -/
theorem entry_of_assignment (hl : Spaced l) (ht : trim l = l) (hk : l.head? ≠ some '=') (hh : heading? l = none)
    (ha : assignment? l = some kv) : Entry kv := by
  obtain ⟨k, v, rfl, hcut, hv, rfl⟩ := assignment?_eq_some.mp ha
  cases k with
  | nil => exact absurd rfl hk
  | cons x k =>
    have hx : ¬ isspace x := trim_head (x :: k ++ '=' :: v) x (by rw [ht]; rfl)
    have hkey : trim (x :: k) = (x :: k).rdropWhile isspace := by
      apply trim_of_head
      rintro c ⟨⟩
      exact hx
    have hvalue : trim v = v.dropWhile isspace := by
      apply trim_of_last
      intro c hc
      apply trim_last (x :: k ++ '=' :: v) c
      rw [ht, List.getLast?_append, List.getLast?_cons, hc]
      rfl
    have hne : trim (x :: k) ≠ [] := fun h => hx (trim_eq_nil.mp h x List.mem_cons_self)
    refine ⟨Tidy.of_trim hl (List.prefix_append _ _).isInfix hne, Tidy.of_trim hl ?_ hv,
      fun h => hcut ((trim_within _).subset h), ?_⟩
    · exact ((List.suffix_cons '=' v).trans (List.suffix_append _ _)).isInfix
    · -- with a bracket at each end the line would have been a heading
      rintro ⟨hopen, hclose⟩
      have hx' : x = '[' := by
        obtain ⟨t, ht'⟩ := List.rdropWhile_prefix isspace (x :: k)
        rw [← hkey] at ht'
        dsimp only at hopen
        rw [← List.head?_append_of_ne_nil _ hne, ht'] at hopen
        exact Option.some.inj hopen
      have hclose' : v.getLast? = some ']' := by
        obtain ⟨t, ht'⟩ := List.dropWhile_suffix isspace (l := v)
        rw [← hvalue] at ht'
        rw [← ht', List.getLast?_append_of_ne_nil _ hv]
        exact hclose
      have hvne : v ≠ [] := by
        rintro rfl
        cases hclose'
      have hrest : (k ++ '=' :: v).dropLast = k ++ '=' :: v.dropLast := by
        rw [List.dropLast_append_of_ne_nil (List.cons_ne_nil _ _), List.dropLast_cons_of_ne_nil hvne]
      rw [List.cons_append, heading?_cons, if_pos] at hh
      · cases hh
      · refine ⟨hx', ?_, ?_⟩
        · rw [← List.cons_append, List.getLast?_append, List.getLast?_cons, hclose']
          rfl
        · rw [hrest]
          intro he
          exact absurd (trim_eq_nil.mp he '=' (by simp)) (by decide)

end Line

/-! ## What is read is well formed -/

variable {S : Sections} {h : List Char} {e : List Char × Section} {st st' : List Char × Sections}

theorem mem_try_emplace (he : e ∈ try_emplace h S) : e = (h, []) ∨ e ∈ S := by
  unfold try_emplace at he
  split at he
  · exact .inr he
  · exact Ordered.mem_place.mp he

theorem mem_emplace_back {kv : List Char × List Char}
    (he : e ∈ emplace_back h kv S) : e ∈ S ∨ ∃ e' ∈ S, e = (e'.1, e'.2 ++ [kv]) := Ordered.mem_adjust he

/-- A line that is entered leaves the sections well formed, and the heading among them. -/
theorem WellFormed.enter {l : List Char} (hw : WellFormed st.2) (hk : st.2 ≠ [] → (find st.2 st.1).isSome)
    (hl : Spaced l) (ht : trim l = l) (h : enter st l = some st') :
    WellFormed st'.2 ∧ (st'.2 ≠ [] → (find st'.2 st'.1).isSome) := by
  obtain ⟨heading, S⟩ := st
  have heq := parse_line_eq l heading S fun h => find_isSome ▸ hk h
  rw [ht] at heq
  unfold config.enter at h
  rw [heq] at h
  cases hh : heading? l with
  | some x =>
    rw [hh] at h
    cases h
    refine ⟨⟨try_emplace_ascending hw.ascending x, ?_, ?_⟩, fun _ => ?_⟩
    · intro e he
      rcases mem_try_emplace he with rfl | he
      · exact tidy_of_heading hl hh
      · exact hw.headings e he
    · intro e he kv hkv
      rcases mem_try_emplace he with rfl | he
      · cases hkv
      · exact hw.entries e he kv hkv
    · rw [find_try_emplace, Function.update_self]
      rfl
  | none =>
    simp only [hh] at h
    split at h
    · cases h
      exact ⟨hw, hk⟩
    · rename_i hS
      cases ha : assignment? l with
      | none =>
        rw [ha] at h
        cases h
        exact ⟨hw, hk⟩
      | some kv =>
        simp only [ha] at h
        split at h
        · cases h
        · rename_i hkey
          cases h
          refine ⟨⟨emplace_back_ascending hw.ascending heading kv, ?_, ?_⟩, fun _ => ?_⟩
          · intro e he
            rcases mem_emplace_back he with he | ⟨e', he', rfl⟩
            · exact hw.headings e he
            · exact hw.headings e' he'
          · intro e he kv' hkv'
            rcases mem_emplace_back he with he | ⟨e', he', rfl⟩
            · exact hw.entries e he kv' hkv'
            · rcases List.mem_append.mp hkv' with hkv' | hkv'
              · exact hw.entries e' he' kv' hkv'
              · rw [List.mem_singleton.mp hkv']
                exact entry_of_assignment hl ht hkey hh ha
          · rw [find_emplace_back hw.ascending (hk hS), Function.update_self]
            rfl

theorem WellFormed.lines {ls : List (List Char)} (hw : WellFormed st.2) (hk : st.2 ≠ [] → (find st.2 st.1).isSome)
    (hl : ∀ l ∈ ls, Spaced l ∧ trim l = l) (h : ls.foldlM config.enter st = some st') : WellFormed st'.2 := by
  induction ls generalizing st with
  | nil => cases h; exact hw
  | cons l ls ih =>
    rw [List.foldlM_cons] at h
    obtain ⟨st₁, h₁, h₂⟩ := Option.bind_eq_some_iff.mp h
    obtain ⟨hs, ht⟩ := hl l List.mem_cons_self
    obtain ⟨hw₁, hk₁⟩ := hw.enter hk hs ht h₁
    exact ih hw₁ hk₁ (fun l' hl' => hl l' (List.mem_cons_of_mem l hl')) h₂

theorem WellFormed.nil : WellFormed [] := ⟨List.Pairwise.nil, by simp, by simp⟩

/-- Whatever is read is well formed. -/
theorem WellFormed.read {blocks : List (List Char)} (h : config.read blocks = some S) : WellFormed S := by
  rw [read_eq, enter_lines] at h
  obtain ⟨st, hst, rfl⟩ := Option.map_eq_some_iff.mp h
  refine WellFormed.nil.lines (fun h => absurd rfl h) (fun l hl => ?_) hst
  exact spaced_of_mem_lines (List.dropLast_subset _ hl)

/-! ## The printed lines -/

def heading_line (h : List Char) : List Char := '[' :: h ++ [']']

def entry_line (kv : List Char × List Char) : List Char := kv.1 ++ '=' :: kv.2

def section_lines (e : List Char × Section) : List (List Char) := heading_line e.1 :: e.2.map entry_line ++ [[]]

theorem print_eq (S : Sections) : print S = (S.flatMap section_lines).flatMap (· ++ ['\n']) := by
  unfold print
  rw [List.flatMap_assoc]
  congr 1
  funext e
  simp [print_section, section_lines, heading_line, entry_line, List.flatMap_map]

section Lines

variable {h : List Char} {kv : List Char × List Char} {e : List Char × Section}

theorem heading_line_spaced (ht : Tidy h) : Spaced (heading_line h) ∧ trim (heading_line h) = heading_line h := by
  have hb : ¬ isspace ']' := by decide
  refine ⟨Spaced.push ?_ hb, trim_eq_self ?_ ?_⟩
  · apply Spaced.append (a := ['[']) (Spaced.of_not_space (by decide)) ht.spaced
    rintro x ⟨⟩ y _ hsp
    exact absurd hsp (by decide)
  · rintro c ⟨⟩
    decide
  · intro c hc
    unfold heading_line at hc
    rw [List.getLast?_concat] at hc
    cases hc
    exact hb

theorem heading?_heading_line (ht : Tidy h) : heading? (heading_line h) = some h := by
  have hd : (h ++ [']']).dropLast = h := List.dropLast_concat
  unfold heading_line
  rw [List.cons_append, heading?_cons, hd, ht.trimmed, if_pos]
  exact ⟨rfl, by rw [← List.cons_append, List.getLast?_concat], ht.nonempty⟩

theorem entry_line_last (he : Entry kv) : (entry_line kv).getLast? = kv.2.getLast? := by
  unfold entry_line
  rw [List.getLast?_append, List.getLast?_cons, List.getLast?_eq_getLast_of_ne_nil he.value.nonempty]
  rfl

theorem entry_line_head (he : Entry kv) : (entry_line kv).head? = kv.1.head? :=
  List.head?_append_of_ne_nil _ he.key.nonempty

theorem entry_line_spaced (he : Entry kv) : Spaced (entry_line kv) ∧ trim (entry_line kv) = entry_line kv := by
  refine ⟨?_, trim_eq_self ?_ ?_⟩
  · apply he.key.spaced.append
    · apply Spaced.append (a := ['=']) (Spaced.of_not_space (by decide)) he.value.spaced
      rintro x ⟨⟩ y _ hsp
      exact absurd hsp (by decide)
    · rintro x _ y ⟨⟩ _
      decide
  · rw [entry_line_head he]
    exact he.key.head
  · rw [entry_line_last he]
    exact he.value.last

theorem heading?_entry_line (he : Entry kv) : heading? (entry_line kv) = none := by
  have hhead := entry_line_head he
  have hlast := entry_line_last he
  cases hl : entry_line kv with
  | nil => rfl
  | cons start rest =>
    rw [hl] at hhead hlast
    rw [heading?_cons, if_neg]
    rintro ⟨rfl, hclose, -⟩
    exact he.plain ⟨hhead.symm, hlast.symm.trans hclose⟩

theorem assignment?_entry_line (he : Entry kv) : assignment? (entry_line kv) = some kv := by
  rw [assignment?_eq_some]
  refine ⟨kv.1, kv.2, rfl, he.cut, ?_, ?_⟩
  · rw [he.value.trimmed]
    exact he.value.nonempty
  · rw [he.key.trimmed, he.value.trimmed]

theorem head?_entry_line (he : Entry kv) : (entry_line kv).head? ≠ some '=' := by
  rw [entry_line_head he]
  intro h
  exact he.cut (List.mem_of_head? h)

theorem WellFormed.section_lines {S : Sections} (hw : WellFormed S) :
    ∀ l ∈ S.flatMap config.section_lines, Spaced l ∧ trim l = l := by
  intro l hl
  obtain ⟨e, he, hl⟩ := List.mem_flatMap.mp hl
  unfold config.section_lines at hl
  rw [List.cons_append, List.mem_cons, List.mem_append, List.mem_map, List.mem_singleton] at hl
  rcases hl with rfl | ⟨kv, hkv, rfl⟩ | rfl
  · exact heading_line_spaced (hw.headings e he)
  · exact entry_line_spaced (hw.entries e he kv hkv)
  · exact ⟨Spaced.nil, rfl⟩

end Lines

/-! ## The printed lines rebuild the sections -/

section Rebuild

variable {pre : Sections} {h h₀ : List Char}

/-- A heading that comes after all the others opens a section at the end. -/
theorem enter_heading_line (ht : Tidy h) (hpre : Ordered.Ascending Prod.fst pre)
    (hk : pre ≠ [] → (find pre h₀).isSome) (hlt : ∀ e ∈ pre, e.1 < h) :
    enter (h₀, pre) (heading_line h) = some (h, pre ++ [(h, [])]) := by
  have heq := parse_line_eq (heading_line h) h₀ pre fun h => find_isSome ▸ hk h
  rw [(heading_line_spaced ht).2, heading?_heading_line ht] at heq
  have hnone : Ordered.get Prod.fst h pre = none :=
    hpre.get_eq_none.mpr fun e he => ne_of_lt (hlt e he)
  have hlast : Ordered.place Prod.fst (h, []) pre = pre ++ [(h, ([] : Section))] := Ordered.place_last hlt
  unfold enter
  rw [heq]
  unfold try_emplace
  simp only [hnone, hlast]

variable {s : Section}

theorem find_last (hlt : ∀ e ∈ pre, e.1 < h) : (find (pre ++ [(h, s)]) h).isSome := by
  have hget : Ordered.get Prod.fst h (pre ++ [(h, s)]) = some (h, s) := Ordered.get_last (x := (h, s)) hlt
  rw [find_isSome, hget]
  rfl

theorem enter_entry_line {kv : List Char × List Char} (he : Entry kv) (hlt : ∀ e ∈ pre, e.1 < h) :
    enter (h, pre ++ [(h, s)]) (entry_line kv) = some (h, pre ++ [(h, s ++ [kv])]) := by
  have heq := parse_line_eq (entry_line kv) h (pre ++ [(h, s)]) fun _ => find_isSome ▸ find_last hlt
  rw [(entry_line_spaced he).2, heading?_entry_line he, assignment?_entry_line he] at heq
  have hne : pre ++ [(h, s)] ≠ [] := ne_nil_of_find (find_last hlt)
  simp only [if_neg (head?_entry_line he), if_neg hne] at heq
  unfold enter
  rw [heq]
  unfold emplace_back
  rw [Ordered.adjust_last (x := (h, s)) hlt]

theorem enter_entry_lines {t : Section} (he : ∀ kv ∈ t, Entry kv) (hlt : ∀ e ∈ pre, e.1 < h) :
    (t.map entry_line).foldlM enter (h, pre ++ [(h, s)]) = some (h, pre ++ [(h, s ++ t)]) := by
  induction t generalizing s with
  | nil => rw [List.append_nil]; rfl
  | cons kv t ih =>
    rw [List.map_cons, List.foldlM_cons, enter_entry_line (he kv List.mem_cons_self) hlt]
    have h := ih (s := s ++ [kv]) fun kv' hkv' => he kv' (List.mem_cons_of_mem kv hkv')
    rwa [List.append_assoc] at h

theorem enter_sections {S : Sections} (hw : WellFormed S) (hasc : Ordered.Ascending Prod.fst (pre ++ S))
    (hk : pre ≠ [] → (find pre h₀).isSome) :
    ((S.flatMap section_lines).foldlM enter (h₀, pre)).map Prod.snd = some (pre ++ S) := by
  induction S generalizing pre h₀ with
  | nil => rw [List.append_nil]; rfl
  | cons e S ih =>
    obtain ⟨hpre, hrest, hlt⟩ := List.pairwise_append.mp hasc
    have hlt' : ∀ e' ∈ pre, e'.1 < e.1 := fun e' he' => hlt e' he' e List.mem_cons_self
    have htail : WellFormed S :=
      ⟨hrest.of_cons, fun e' he' => hw.headings e' (List.mem_cons_of_mem e he'),
        fun e' he' => hw.entries e' (List.mem_cons_of_mem e he')⟩
    have hlines : (section_lines e).foldlM enter (h₀, pre) = some (e.1, pre ++ [e]) := by
      unfold section_lines
      rw [List.cons_append, List.foldlM_cons, enter_heading_line (hw.headings e List.mem_cons_self) hpre hk hlt']
      show (e.2.map entry_line ++ [[]]).foldlM enter (e.1, pre ++ [(e.1, [])]) = _
      rw [List.foldlM_append, enter_entry_lines (hw.entries e List.mem_cons_self) hlt']
      rfl
    have happ : pre ++ [e] ++ S = pre ++ e :: S := by simp
    rw [List.flatMap_cons, List.foldlM_append, hlines, ← happ]
    exact ih htail (happ ▸ hasc) fun _ => find_last hlt'

end Rebuild

/-- What is printed for a configuration that was read is read as that configuration again. -/
theorem the_printed_configuration_is_read_back (blocks : List (List Char))
    (hkeys : ∀ l ∈ Text.lines blocks.flatten, ¬ EmptyKey l) :
    ∃ sections, read blocks = some sections ∧
      ∀ blocks', blocks'.flatten = print sections → read blocks' = some sections := by
  obtain ⟨st, -, hread, -⟩ := read_represents hkeys
  refine ⟨st.2, hread, fun blocks' hprint => ?_⟩
  have hw := WellFormed.read hread
  rw [read_eq, hprint, enter_lines, print_eq, lines_flatMap hw.section_lines, List.dropLast_concat]
  exact enter_sections hw hw.ascending fun h => absurd rfl h

/-- Two sections, one of them opened twice, with a bracket in a key and a key that is repeated. -/
theorem a_reopened_section_is_read_back :
    ∃ sections, read ["[b]\n[k = v\n  w\n[a]\n[ b ]\n[k=x]y\n".toList] = some sections ∧
      ∀ blocks', blocks'.flatten = print sections → read blocks' = some sections := by
  have hlines : Text.lines ["[b]\n[k = v\n  w\n[a]\n[ b ]\n[k=x]y\n".toList].flatten =
      ["[b]".toList, "[k = v w".toList, "[a]".toList, "[ b ]".toList, "[k=x]y".toList, []] := by decide +kernel
  apply the_printed_configuration_is_read_back
  rw [hlines]
  intro l hl
  unfold EmptyKey
  revert l
  decide

end cloudbus.config
