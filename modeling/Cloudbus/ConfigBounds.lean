-- The positions that `parse_line` (config/config.cpp) looks at: each line of a
-- configuration text is gone over by iterators, forwards and backwards.
import Cloudbus.Config
import Cloudbus.Lib.Scan

open Text

namespace cloudbus.config

/-- `std::string(start, stop)` -/
def string_of (line : List Char) (start stop : Nat) : Scan (List Char) := do
  let size ← Scan.diff stop start
  Scan.copy line start size

/-- `std::find_if(start, stop, p)` -/
def find_if (line : List Char) (p : Char → Bool) (start stop : Nat) : Scan Nat := do
  let size ← Scan.diff stop start
  Scan.find line p start size

/-- A line in brackets, from `start` to `last`. -/
def scan_heading (line heading : List Char) (sections : Sections) (start last : Nat) :
    Scan (Option (List Char × Sections)) := do
  let inner ← find_if line (fun c => !isspace c) (start + 1) last
  if inner = last then pure (some (heading, sections))
  else
    let stop ← Scan.back line isspace last
    let heading ← string_of line inner (stop + 1)
    pure (some (heading, try_emplace heading sections))

/-- A key and its value, from `start` to before `stop`. -/
def scan_key (line heading : List Char) (sections : Sections) (start stop : Nat) :
    Scan (Option (List Char × Sections)) := do
  let key_end ← find_if line (· == '=') start stop
  if key_end = stop then pure (some (heading, sections))
  else
    let value_start ← find_if line (fun c => !isspace c) (key_end + 1) stop
    if value_start = stop then pure (some (heading, sections))
    else
      let last ← Scan.back line isspace key_end
      let key ← string_of line start (last + 1)
      let value ← string_of line value_start stop
      pure (some (heading, emplace_back heading (key, value) sections))

/-- `*start == '[' && *end == ']'` -/
def in_brackets (line : List Char) (start last : Nat) : Scan Bool := do
  let first ← Scan.get line start
  if first = '[' then (· == ']') <$> Scan.get line last else pure false

/-- `parse_line`, by iterators. `none` is the exception of `at`. -/
def scan_line (line heading : List Char) (sections : Sections) : Scan (Option (List Char × Sections)) := do
  let start ← find_if line (fun c => !isspace c) 0 line.length
  if start = line.length then pure (some (heading, sections))
  else
    let last ← Scan.back line isspace line.length
    let brackets ← in_brackets line start last
    if brackets then scan_heading line heading sections start last
    else if sections = [] then pure (some (heading, sections))
    else
      match Ordered.get Prod.fst heading sections with
      | none => pure none
      | some _ => scan_key line heading sections start (last + 1)

/-! ## A line that is read stays in its bounds -/

section

variable {line a b x y : List Char} {p : Char → Bool} {ch : Char} {c len : Nat}

/-- The characters of a line from one of them on. -/
theorem slice_mid (a x b : List Char) : Scan.slice (a ++ x ++ b) a.length x.length = x := by
  rw [Scan.slice, List.append_assoc, List.drop_left, List.take_left]

theorem ends_string_of (h : line = a ++ x ++ b) :
    Scan.Ends line.length (string_of line a.length (a.length + x.length)) x := by
  have hlen := congrArg List.length h
  rw [List.length_append, List.length_append] at hlen
  refine (Scan.ends_diff (Nat.le_add_right _ _)).bind ?_
  rw [Nat.add_sub_cancel_left]
  exact (Scan.ends_copy (by omega)).congr (by rw [h, slice_mid])

/-- `find_if` over a part of the line: it stops at the first character that it looks for. -/
theorem ends_find_if (h : line = a ++ x ++ b) :
    Scan.Ends line.length (find_if line p a.length (a.length + x.length))
      (a.length + (x.takeWhile fun ch => !p ch).length) := by
  have hlen := congrArg List.length h
  rw [List.length_append, List.length_append] at hlen
  refine (Scan.ends_diff (Nat.le_add_right _ _)).bind ?_
  rw [Nat.add_sub_cancel_left]
  exact (Scan.ends_find (by omega)).congr (by rw [h, slice_mid])

/-- The last character that is not skipped, going backwards from the end of `y`. -/
theorem ends_back (h : line = x ++ ch :: y ++ b) (hch : ¬ p ch) (hy : ∀ d ∈ y, p d) :
    Scan.Ends line.length (Scan.back line p (x.length + 1 + y.length)) x.length := by
  induction y using List.reverseRecOn generalizing b with
  | nil =>
    have hget : (line)[x.length]? = some ch := by rw [h]; simp
    refine (Scan.ends_get hget).bind ?_
    rw [if_neg hch]
    exact .pure _
  | append_singleton y d ih =>
    have hget : (line)[x.length + 1 + y.length]? = some d := by
      rw [h]
      simp [Nat.add_comm 1, Nat.add_assoc]
    rw [List.length_append, ← Nat.add_assoc]
    refine (Scan.ends_get hget).bind ?_
    rw [if_pos (hy d (by simp))]
    exact ih (b := d :: b) (by rw [h]; simp) fun e he => hy e (by simp [he])

/-- A line around its trimmed text. -/
theorem trim_cut (line : List Char) :
    ∃ a b, line = a ++ trim line ++ b ∧ (∀ c ∈ a, isspace c) ∧ ∀ c ∈ b, isspace c := by
  refine ⟨line.takeWhile isspace, (line.dropWhile isspace).rtakeWhile isspace, ?_, ?_, ?_⟩
  · rw [trim, List.append_assoc, List.rdropWhile_append_rtakeWhile, List.takeWhile_append_dropWhile]
  · exact fun c hc => List.mem_takeWhile_imp hc
  · exact fun c hc => List.mem_rtakeWhile_imp hc

/-- A text that is not all spaces, cut at its last character that is none. -/
theorem rdropWhile_cut (h : x.rdropWhile isspace ≠ []) :
    ∃ z d y, x = z ++ d :: y ∧ ¬ isspace d ∧ (∀ c ∈ y, isspace c) ∧ x.rdropWhile isspace = z ++ [d] := by
  obtain ⟨z, d, hz⟩ := (List.eq_nil_or_concat (x.rdropWhile isspace)).resolve_left h
  rw [List.concat_eq_append] at hz
  refine ⟨z, d, x.rtakeWhile isspace, ?_, ?_, fun c hc => List.mem_rtakeWhile_imp hc, hz⟩
  · have happ := List.rdropWhile_append_rtakeWhile (p := isspace) (l := x)
    rw [hz, List.append_assoc] at happ
    exact happ.symm
  · have hlast := List.rdropWhile_last_not isspace x h
    simpa [hz] using hlast

theorem takeWhile_not_eq (x : List Char) : (x.takeWhile fun c => !!isspace c) = x.takeWhile isspace := by
  simp only [Bool.not_not]

variable {heading mid key value t : List Char} {sections : Sections}

theorem ends_scan_heading (h : line = a ++ '[' :: mid ++ ']' :: b) :
    Scan.Ends line.length (scan_heading line heading sections a.length (a.length + 1 + mid.length))
      (some (if trim mid = [] then (heading, sections) else (trim mid, try_emplace (trim mid) sections))) := by
  have hfind : Scan.Ends line.length (find_if line (fun c => !isspace c) (a.length + 1) (a.length + 1 + mid.length))
      (a.length + 1 + (mid.takeWhile isspace).length) := by
    have hcut : line = (a ++ ['[']) ++ mid ++ ']' :: b := by rw [h]; simp
    have hends := ends_find_if (p := fun c => !isspace c) hcut
    rwa [takeWhile_not_eq, List.length_append] at hends
  refine hfind.bind ?_
  by_cases hall : mid.all isspace
  · have hnil : trim mid = [] := trim_eq_nil.mpr (List.all_eq_true.mp hall)
    rw [Scan.takeWhile_of_all hall, if_pos rfl, if_pos hnil]
    exact .pure _
  · have hlt := Scan.length_takeWhile_lt hall
    have hne : trim mid ≠ [] := fun hnil => hall (List.all_eq_true.mpr (trim_eq_nil.mp hnil))
    rw [if_neg (by omega), if_neg hne]
    -- the text between the brackets, around its trimmed text
    obtain ⟨z, d, y, hcut, hd, hy, htrim⟩ := rdropWhile_cut (x := mid.dropWhile isspace) hne
    have hmid : mid = mid.takeWhile isspace ++ (z ++ d :: y) := by rw [← hcut, List.takeWhile_append_dropWhile]
    have htext : trim mid = z ++ [d] := htrim
    generalize mid.takeWhile isspace = w at hmid
    have hline : line = (a ++ '[' :: w ++ z) ++ d :: y ++ ']' :: b := by rw [h, hmid]; simp
    have hback := ends_back hline hd hy
    have hpos : (a ++ '[' :: w ++ z).length + 1 + y.length = a.length + 1 + mid.length := by
      rw [hmid]
      simp only [List.length_append, List.length_cons]
      omega
    have hcopy := ends_string_of (show line = (a ++ '[' :: w) ++ (z ++ [d]) ++ (y ++ ']' :: b) by rw [hline]; simp)
    have hinner : (a ++ '[' :: w).length = a.length + 1 + w.length := by
      simp only [List.length_append, List.length_cons]
      omega
    have hstop : a.length + 1 + w.length + (z ++ [d]).length = (a ++ '[' :: w ++ z).length + 1 := by
      simp only [List.length_append, List.length_cons, List.length_nil]
      omega
    rw [hpos] at hback
    rw [hinner, hstop] at hcopy
    rw [htext]
    exact hback.bind (hcopy.bind (.pure _))

/-- The key ends before the `=`, and it is not empty when there is a value. -/
theorem ends_scan_key (h : line = a ++ t ++ b) (hhead : ∀ c ∈ t.head?, ¬ isspace c)
    (hkey : t.takeWhile (· != '=') = [] → ((t.dropWhile (· != '=')).drop 1).dropWhile isspace = []) :
    Scan.Ends line.length (scan_key line heading sections a.length (a.length + t.length))
      (some (match t.dropWhile (· != '=') with
        | [] => (heading, sections)
        | _ :: value =>
          if value.dropWhile isspace = [] then (heading, sections)
          else (heading, emplace_back heading
            ((t.takeWhile (· != '=')).rdropWhile isspace, value.dropWhile isspace) sections))) := by
  have hequals : Scan.Ends line.length (find_if line (· == '=') a.length (a.length + t.length))
      (a.length + (t.takeWhile (· != '=')).length) := ends_find_if h
  refine hequals.bind ?_
  have happ := List.takeWhile_append_dropWhile (p := (· != '=')) (l := t)
  have hcolon := List.head?_dropWhile_not (· != '=') t
  generalize t.takeWhile (· != '=') = key at happ hkey ⊢
  cases hd : t.dropWhile (· != '=') with
  | nil =>
    rw [hd, List.append_nil] at happ
    rw [happ, if_pos rfl]
    exact .pure _
  | cons eq value =>
    rw [hd] at happ hcolon hkey
    obtain rfl : eq = '=' := by simpa using hcolon
    subst happ
    have hstop : a.length + (key ++ '=' :: value).length = a.length + key.length + 1 + value.length := by
      simp only [List.length_append, List.length_cons]
      omega
    rw [if_neg (by omega), hstop]
    have hfind : Scan.Ends line.length (find_if line (fun c => !isspace c) (a.length + key.length + 1)
        (a.length + key.length + 1 + value.length)) (a.length + key.length + 1 + (value.takeWhile isspace).length) := by
      have hends := ends_find_if (p := fun c => !isspace c)
        (show line = (a ++ key ++ ['=']) ++ value ++ b by rw [h]; simp)
      rwa [takeWhile_not_eq, List.length_append, List.length_append] at hends
    refine hfind.bind ?_
    by_cases hall : value.all isspace
    · dsimp only
      rw [Scan.takeWhile_of_all hall, if_pos rfl, if_pos (List.dropWhile_eq_nil_iff.mpr (List.all_eq_true.mp hall))]
      exact .pure _
    have hlt := Scan.length_takeWhile_lt hall
    have hvalue : value.dropWhile isspace ≠ [] := fun hnil =>
      hall (List.all_eq_true.mpr (List.dropWhile_eq_nil_iff.mp hnil))
    dsimp only
    rw [if_neg (by omega), if_neg hvalue]
    -- the key has a character that is no space: its first one
    have hrd : key.rdropWhile isspace ≠ [] := by
      cases key with
      | nil => exact absurd (hkey rfl) hvalue
      | cons c key =>
        intro hnil
        exact hhead c rfl (List.rdropWhile_eq_nil_iff.mp hnil c (.head _))
    obtain ⟨z, d, y, rfl, hdsp, hy, htrim⟩ := rdropWhile_cut hrd
    have hback := ends_back (show line = (a ++ z) ++ d :: y ++ ('=' :: value ++ b) by rw [h]; simp) hdsp hy
    have hback' : (a ++ z).length + 1 + y.length = a.length + (z ++ d :: y).length := by
      simp only [List.length_append, List.length_cons]
      omega
    have hcopy := ends_string_of (show line = a ++ (z ++ [d]) ++ (y ++ '=' :: value ++ b) by rw [h]; simp)
    have hcopy' : a.length + (z ++ [d]).length = (a ++ z).length + 1 := by
      simp only [List.length_append, List.length_cons, List.length_nil]
      omega
    have hval := ends_string_of
      (show line = (a ++ (z ++ d :: y) ++ '=' :: value.takeWhile isspace) ++ value.dropWhile isspace ++ b by
        conv_lhs => rw [h, ← List.takeWhile_append_dropWhile (p := isspace) (l := value)]
        simp)
    have hval' : (a ++ (z ++ d :: y) ++ '=' :: value.takeWhile isspace).length =
        a.length + (z ++ d :: y).length + 1 + (value.takeWhile isspace).length := by
      simp only [List.length_append, List.length_cons]
      omega
    have hval'' : a.length + (z ++ d :: y).length + 1 + (value.takeWhile isspace).length +
        (value.dropWhile isspace).length = a.length + (z ++ d :: y).length + 1 + value.length := by
      have hlen := congrArg List.length (List.takeWhile_append_dropWhile (p := isspace) (l := value))
      rw [List.length_append] at hlen
      omega
    rw [hback'] at hback
    rw [hcopy'] at hcopy
    rw [hval', hval''] at hval
    rw [htrim]
    exact hback.bind (hcopy.bind (hval.bind (.pure _)))

/-- What `parse_line` returns it finds inside of the line. -/
theorem ends_scan_line {r : List Char × Sections} (h : parse_line line heading sections = some r) :
    Scan.Ends line.length (scan_line line heading sections) (some r) := by
  obtain ⟨a, b, hline, ha, hb⟩ := trim_cut line
  have hhead := trim_head line
  have hlast := trim_last line
  unfold parse_line at h
  generalize trim line = t at hline hhead hlast h
  have hstart : Scan.Ends line.length (find_if line (fun c => !isspace c) 0 line.length)
      (line.takeWhile isspace).length := by
    have hfind := ends_find_if (a := []) (b := []) (p := fun c => !isspace c)
      (show line = [] ++ line ++ [] by rw [List.nil_append, List.append_nil])
    rwa [takeWhile_not_eq, List.length_nil, Nat.zero_add, Nat.zero_add] at hfind
  refine hstart.bind ?_
  cases t with
  | nil =>
    have hall : line.all isspace := by
      rw [hline, List.all_eq_true]
      intro c hc
      rw [List.append_nil, List.mem_append] at hc
      exact hc.elim (ha c) (hb c)
    rw [Scan.takeWhile_of_all hall, if_pos rfl]
    cases h
    exact .pure _
  | cons first rest =>
    have hfirst : ¬ isspace first := hhead first rfl
    obtain ⟨z, d, hzd⟩ := (List.eq_nil_or_concat (first :: rest)).resolve_left (List.cons_ne_nil _ _)
    rw [List.concat_eq_append] at hzd
    have hd : ¬ isspace d := hlast d (by rw [hzd, List.getLast?_concat]; rfl)
    have htake : line.takeWhile isspace = a := by
      rw [hline, List.append_assoc, List.takeWhile_append_of_pos ha, List.cons_append,
        List.takeWhile_cons_of_neg hfirst, List.append_nil]
    have hlen := congrArg List.length hline
    have hzlen := congrArg List.length hzd
    simp only [List.length_append, List.length_cons, List.length_nil] at hlen hzlen
    rw [htake, if_neg (by omega)]
    -- the end of the line
    have hend : Scan.Ends line.length (Scan.back line isspace line.length) (a ++ z).length := by
      have hback := ends_back (b := []) (show line = (a ++ z) ++ d :: b ++ [] by rw [hline, hzd]; simp) hd hb
      have hpos : (a ++ z).length + 1 + b.length = line.length := by rw [List.length_append]; omega
      rwa [hpos] at hback
    have hget : (line)[a.length]? = some first := by rw [hline]; simp
    have hgetd : (line)[(a ++ z).length]? = some d := by rw [hline, hzd]; simp
    have hbrackets : Scan.Ends line.length (in_brackets line a.length (a ++ z).length)
        (decide (first = '[' ∧ d = ']')) := by
      refine (Scan.ends_get hget).bind ?_
      split
      · rename_i hf
        exact (Scan.ends_get hgetd).map.congr (by simp [hf]; rfl)
      · rename_i hf
        exact (Scan.Ends.pure _).congr (by simp [hf])
    refine hend.bind (hbrackets.bind ?_)
    have hlastc : (first :: rest).getLast? = some d := by rw [hzd, List.getLast?_concat]
    dsimp only at h
    by_cases hbr : first = '[' ∧ d = ']'
    · obtain ⟨rfl, rfl⟩ := hbr
      rw [if_pos (decide_eq_true ⟨rfl, rfl⟩)]
      rw [if_pos ⟨rfl, hlastc⟩] at h
      cases z with
      | nil => exact absurd (List.cons_eq_cons.mp hzd).1 (by decide)
      | cons c mid =>
        rw [List.cons_append] at hzd
        obtain ⟨rfl, rfl⟩ := List.cons_eq_cons.mp hzd
        rw [List.dropLast_concat] at h
        have hpos : (a ++ '[' :: mid).length = a.length + 1 + mid.length := by
          simp only [List.length_append, List.length_cons]
          omega
        have hr : (if trim mid = [] then (heading, sections) else (trim mid, try_emplace (trim mid) sections)) = r := by
          split at h
          · rename_i hnil
            rw [if_pos hnil]
            exact Option.some_inj.mp h
          · rename_i hnil
            rw [if_neg hnil]
            exact Option.some_inj.mp h
        rw [hpos, ← hr]
        exact ends_scan_heading (b := b) (by rw [hline]; simp)
    · have hbr' : ¬ (first = '[' ∧ (first :: rest).getLast? = some ']') := by
        rw [hlastc, Option.some_inj]
        exact hbr
      rw [if_neg (by simpa using hbr)]
      rw [if_neg hbr'] at h
      by_cases hsec : sections = []
      · rw [if_pos hsec] at h ⊢
        cases h
        exact .pure _
      rw [if_neg hsec] at h ⊢
      cases hget' : Ordered.get Prod.fst heading sections with
      | none =>
        rw [hget'] at h
        cases h
      | some e =>
        rw [hget'] at h
        dsimp only at h ⊢
        have hstop : (a ++ z).length + 1 = a.length + (first :: rest).length := by
          rw [List.length_append, List.length_cons]
          omega
        rw [hstop]
        have hkey : (first :: rest).takeWhile (· != '=') = [] →
            (((first :: rest).dropWhile (· != '=')).drop 1).dropWhile isspace = [] := by
          intro hnil
          cases hdw : (first :: rest).dropWhile (· != '=') with
          | nil => rfl
          | cons eq value =>
            rw [hdw, hnil] at h
            dsimp only at h
            rw [List.drop_one, List.tail_cons]
            by_contra hval
            rw [if_neg hval, if_pos rfl] at h
            cases h
        refine (ends_scan_key hline hhead hkey).congr (congrArg some ?_)
        cases hdw : (first :: rest).dropWhile (· != '=') with
        | nil =>
          rw [hdw] at h
          exact Option.some_inj.mp h
        | cons eq value =>
          rw [hdw] at h
          dsimp only at h ⊢
          split_ifs at h with hval
          · rw [if_pos hval]
            exact Option.some_inj.mp h
          · rw [if_neg hval]
            exact Option.some_inj.mp h

end

/-! ## A text -/

/-- A character before which the line is parsed. -/
def Parser.flushes (p : Parser) (c : Char) : Bool :=
  decide (p.line.getLast? = some '\n' ∧ (¬ isspace c ∨ c = '\n'))

/-- The calls of `parse_line` while some text is read: what the parser holds at each of them. -/
def Parser.calls (p : Parser) : List Char → List Parser
  | [] => if p.line.getLast? = some '\n' then [p] else []
  | c :: s => (if p.flushes c then [p] else []) ++ (p.next c).elim [] fun q => q.calls s

theorem Parser.flush_of_next {p q : Parser} {c : Char} (hf : p.flushes c) (h : p.next c = some q) : p.flush ≠ none := by
  obtain ⟨hlast, hc⟩ := of_decide_eq_true hf
  rcases hc with hc | rfl
  · rw [next_text hc, if_pos hlast] at h
    rintro hnone
    rw [hnone] at h
    cases h
  · have hopen : p.open_end = false := by
      unfold open_end
      rw [hlast]
      rfl
    rw [next_newline, hopen, if_neg Bool.false_ne_true, if_pos hlast] at h
    rw [h]
    exact Option.some_ne_none q

/-- When the text is read to its end, each call of `parse_line` returned. -/
theorem Parser.calls_return {p : Parser} {s : List Char} {sections : Sections}
    (h : (s.foldlM Parser.next p).bind Parser.finish = some sections) :
    ∀ q ∈ p.calls s, ∃ r, parse_line q.line q.heading q.sections = some r := by
  have hflush : ∀ q : Parser, q.flush ≠ none → ∃ r, parse_line q.line q.heading q.sections = some r := by
    intro q hq
    cases hr : parse_line q.line q.heading q.sections with
    | none => exact absurd (by rw [flush, hr]; rfl) hq
    | some r => exact ⟨r, rfl⟩
  induction s generalizing p with
  | nil =>
    intro q hq
    unfold calls at hq
    split at hq
    · rename_i hlast
      rw [List.mem_singleton.mp hq]
      refine hflush p fun hnone => ?_
      change p.finish = some sections at h
      rw [finish, if_pos hlast, hnone] at h
      cases h
    · cases hq
  | cons c s ih =>
    intro q hq
    rw [List.foldlM_cons] at h
    rw [calls, List.mem_append] at hq
    cases hn : p.next c with
    | none =>
      rw [hn] at h
      cases h
    | some p' =>
      rw [hn] at h hq
      rcases hq with hq | hq
      · split at hq
        · rename_i hf
          rw [List.mem_singleton.mp hq]
          exact hflush p (flush_of_next hf hn)
        · cases hq
      · exact ih h q hq

/-- No line with a heading before it has a value and an empty key. -/
def Keyed (ls : List (List Char)) : Prop :=
  ∀ before l after, ls = before ++ l :: after → (({} : Reading).lines before).current ≠ none →
    assignment? l ≠ none → ¬ EmptyKey l

end cloudbus.config
