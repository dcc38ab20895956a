-- The texts of the resolver (dns/dns.cpp): the protocol that is read from the owner
-- of an SRV record, and the substitution of a NAPTR record, which is handed to
-- another language.
import Cloudbus.Resolver
import Cloudbus.Lib.Scan

namespace cloudbus.dns

/-! ## The protocol of an SRV record -/

/-- The loop `while(!std::isalpha(*(++start)));`, which looks first at `start`, and the text from there to
`stop` in upper case. -/
def scan_letters (name : List Char) (start stop : Nat) : Scan (List Char) := do
  let start ← Scan.seek name Char.isAlpha start (name.length - start)
  let size ← Scan.diff stop start
  let proto ← Scan.copy name start size
  pure (proto.map Char.toUpper)

/-- `extract_protocol`, by the characters it reads. -/
def scan_protocol (name : List Char) : Scan (List Char) := do
  let dot ← Scan.find_from name (· == '.') 0
  let stop ← Scan.find_from name (· == '.') (dot + 1)
  scan_letters name (dot + 2) stop

variable {s r name w l t part : List Char} {delim : Char} {p q : Char → Bool} {len : Nat}

/-- A search for a letter that stays before the first dot finds one before it. -/
theorem any_takeWhile_iff (hpq : ∀ c, p c → q c) (r : List Char) :
    (r.takeWhile q).any p ↔ r.any p ∧ (r.takeWhile fun c => !p c).length ≤ (r.takeWhile q).length := by
  induction r with
  | nil => simp
  | cons c r ih =>
    by_cases hp : p c
    · simp [hp, hpq c hp]
    · by_cases hq : q c
      · simp [hp, hq] at ih ⊢
        exact ih
      · simp [hp, hq]

/-- What stays before the first dot, from the first letter on, as it is cut out of the text. -/
theorem take_drop_takeWhile (h : (r.takeWhile q).any p) :
    (r.drop (r.takeWhile fun c => !p c).length).take ((r.takeWhile q).length - (r.takeWhile fun c => !p c).length) =
      (r.takeWhile q).dropWhile fun c => !p c := by
  induction r with
  | nil => cases h
  | cons c r ih =>
    by_cases hq : q c
    · rw [List.takeWhile_cons_of_pos hq] at h ⊢
      by_cases hp : p c
      · simp [hp, Scan.take_takeWhile]
      · rw [List.takeWhile_cons_of_pos (by simp [hp]), List.dropWhile_cons_of_pos (by simp [hp]), List.length_cons,
          List.length_cons, List.drop_succ_cons, Nat.add_sub_add_right]
        exact ih (by simpa [hp] using h)
    · rw [List.takeWhile_cons_of_neg hq] at h
      cases h

theorem letter_not_dot (c : Char) (h : c.isAlpha) : (c != '.') = true := by
  rw [bne_iff_ne]
  rintro rfl
  exact absurd h (by decide)

theorem scan_letters_ends {start stop : Nat} (hstop : stop ≤ name.length) :
    Scan.Ends name.length (scan_letters name start stop) w ↔
      (name.drop start).any Char.isAlpha ∧
        start + ((name.drop start).takeWhile fun c => !c.isAlpha).length ≤ stop ∧
        w = (Scan.slice name (start + ((name.drop start).takeWhile fun c => !c.isAlpha).length)
          (stop - (start + ((name.drop start).takeWhile fun c => !c.isAlpha).length))).map Char.toUpper := by
  unfold scan_letters
  rw [Scan.ends_bind]
  constructor
  · rintro ⟨i, hseek, hends⟩
    obtain ⟨hany, rfl⟩ := (Scan.ends_seek rfl).mp hseek
    obtain ⟨size, hdiff, hends⟩ := Scan.ends_bind.mp hends
    have hle := hdiff.le
    obtain rfl := (Scan.ends_diff hle).iff.mp hdiff
    exact ⟨hany, hle, (Scan.ends_copy (by omega)).map.iff.mp hends⟩
  · rintro ⟨hany, hle, rfl⟩
    exact ⟨_, (Scan.ends_seek rfl).mpr ⟨hany, rfl⟩, (Scan.ends_diff hle).bind (Scan.ends_copy (by omega)).map⟩

/-- The characters that `extract_protocol` reads are in the name, when there is a protocol to be read. -/
theorem scan_protocol_ends : Scan.Ends name.length (scan_protocol name) w ↔ extract_protocol name = some w := by
  have hdot := Scan.ends_find_from (p := fun ch => ch == '.') (Nat.zero_le name.length)
  rw [List.drop_zero, Nat.zero_add] at hdot
  -- the name before its first dot, and from there on
  have hsplit := List.takeWhile_append_dropWhile (p := (· != '.')) (l := name)
  generalize hn : (name.takeWhile fun ch => !(ch == '.')).length = n at hdot
  replace hn : (name.takeWhile (· != '.')).length = n := hn
  unfold scan_protocol extract_protocol
  rw [Scan.ends_bind]
  simp only [hdot.iff, exists_eq_left, Scan.ends_bind]
  cases hrest : name.dropWhile (· != '.') with
  | nil =>
    rw [hrest, List.append_nil] at hsplit
    rw [hsplit] at hn
    constructor
    · rintro ⟨stop, hstop, -⟩
      exact absurd hstop (Scan.not_ends_find_from (by omega))
    · intro hnone
      cases hnone
  | cons d rest =>
    rw [hrest] at hsplit
    have hlen : name.length = n + 1 + rest.length := by
      rw [← hsplit, List.length_append, hn, List.length_cons]
      omega
    have hdrop : name.drop (n + 1) = rest := by
      rw [← hsplit, ← hn, List.drop_append, List.drop_of_length_le (Nat.le_succ _)]
      simp
    have hstop := Scan.ends_find_from (p := fun ch => ch == '.') (show n + 1 ≤ name.length by omega)
    rw [hdrop] at hstop
    have htake : (rest.takeWhile fun ch => !(ch == '.')).length ≤ rest.length :=
      (List.takeWhile_sublist _).length_le
    simp only [hstop.iff, exists_eq_left]
    rw [scan_letters_ends (by omega), show n + 2 = n + 1 + 1 from rfl, ← List.drop_drop, hdrop]
    cases rest with
    | nil => simp
    | cons x r =>
      have hslice : ∀ k m, Scan.slice name (n + 1 + 1 + k) m = (r.drop k).take m := by
        intro k m
        unfold Scan.slice
        rw [← List.drop_drop, ← List.drop_drop, hdrop]
        rfl
      simp only [List.drop_succ_cons, List.drop_zero, hslice]
      by_cases hx : x = '.'
      · subst hx
        simp
        omega
      · have hsub : ∀ k t : Nat, n + 1 + (t + 1) - (n + 1 + 1 + k) = t - k := by omega
        have hle : ∀ k t : Nat, n + 1 + 1 + k ≤ n + 1 + (t + 1) ↔ k ≤ t := by omega
        have hiff := any_takeWhile_iff (p := Char.isAlpha) (q := (· != '.')) letter_not_dot r
        have hcut := take_drop_takeWhile (p := Char.isAlpha) (q := (· != '.')) (r := r)
        rw [List.takeWhile_cons_of_pos (by simpa using hx), List.takeWhile_cons_of_pos (by simpa using hx)]
        simp only [List.length_cons, hsub, hle, List.drop_succ_cons, List.drop_zero]
        change (r.any Char.isAlpha = true ∧ _ ≤ (r.takeWhile (· != '.')).length ∧
          w = (((r.drop _).take ((r.takeWhile (· != '.')).length - _)).map Char.toUpper)) ↔ _
        by_cases hlabel : (r.takeWhile (· != '.')).any Char.isAlpha
        · rw [if_pos hlabel, hcut hlabel, Option.some_inj, ← and_assoc, ← hiff]
          exact (and_iff_right hlabel).trans eq_comm
        · rw [if_neg hlabel, ← and_assoc, ← hiff]
          simp [hlabel]

/-- The characters between the first dot and the second one, or the end. -/
def second_label (name : List Char) : List Char := ((name.dropWhile (· != '.')).drop 1).takeWhile (· != '.')

theorem extract_protocol_eq (name : List Char) :
    extract_protocol name =
      if ((second_label name).drop 1).any Char.isAlpha then
        some ((((second_label name).drop 1).dropWhile fun c => !c.isAlpha).map Char.toUpper)
      else none := by
  unfold extract_protocol second_label
  cases name.dropWhile (· != '.') with
  | nil => rfl
  | cons d rest => rfl

theorem all_not_dot (h : '.' ∉ l) : ∀ c ∈ l, (c != '.') = true := by
  intro c hc
  rw [bne_iff_ne]
  rintro rfl
  exact h hc

theorem second_label_eq {a tail : List Char} (ha : '.' ∉ a) (hl : '.' ∉ l)
    (ht : tail = [] ∨ ∃ rest, tail = '.' :: rest) : second_label (a ++ '.' :: (l ++ tail)) = l := by
  unfold second_label
  rw [List.dropWhile_append_of_pos (all_not_dot ha), List.dropWhile_cons_of_neg (by decide), List.drop_succ_cons,
    List.drop_zero, List.takeWhile_append_of_pos (all_not_dot hl)]
  rcases ht with rfl | ⟨rest, rfl⟩
  · exact List.append_nil l
  · rw [List.takeWhile_cons_of_neg (by decide), List.append_nil]

/-- Where the second label has a letter behind its first character, `extract_protocol` reads characters of
the name alone. For a label with an underscore and a letter it returns the label without the underscore. -/
theorem the_protocol_is_read_in_the_name (name : List Char) :
    ((∃ c ∈ (second_label name).drop 1, c.isAlpha) → ∃ p, Scan.Ends name.length (scan_protocol name) p) ∧
      ∀ label c more tail, '.' ∉ label → c.isAlpha → '.' ∉ more → (tail = [] ∨ ∃ rest, tail = '.' :: rest) →
        name = label ++ '.' :: ('_' :: c :: more ++ tail) →
        Scan.Ends name.length (scan_protocol name) ((c :: more).map Char.toUpper) := by
  constructor
  · intro hletter
    have hany : ((second_label name).drop 1).any Char.isAlpha := List.any_eq_true.mpr hletter
    exact ⟨_, scan_protocol_ends.mpr ((extract_protocol_eq name).trans (if_pos hany))⟩
  · intro label c more tail hlabel hc hmore htail hname
    have hsecond : second_label name = '_' :: c :: more := by
      rw [hname]
      refine second_label_eq hlabel ?_ htail
      simp only [List.mem_cons, not_or]
      refine ⟨by decide, ?_, hmore⟩
      rintro rfl
      exact absurd hc (by decide)
    refine scan_protocol_ends.mpr ?_
    rw [extract_protocol_eq, hsecond, List.drop_succ_cons, List.drop_zero, if_pos (by simp [hc]),
      List.dropWhile_cons_of_neg (by simp [hc])]

theorem sip_is_read :
    Scan.Ends "_sip._tcp.example".toList.length (scan_protocol "_sip._tcp.example".toList) "TCP".toList :=
  (the_protocol_is_read_in_the_name "_sip._tcp.example".toList).2 "_sip".toList 't' "cp".toList ".example".toList
    (by decide) (by decide) (by decide) (.inr ⟨"example".toList, rfl⟩) rfl

/-- Names without a second label, with an empty one and with one without letters are read behind their
ends; a letter behind the second dot gives a text that ends before it starts. -/
theorem names_are_left :
    (∃ a ∈ (scan_protocol "tcp".toList).log, ¬ a.Ok "tcp".toList.length) ∧
      (∃ a ∈ (scan_protocol "_sip.".toList).log, ¬ a.Ok "_sip.".toList.length) ∧
      (∃ a ∈ (scan_protocol "_sip._1".toList).log, ¬ a.Ok "_sip._1".toList.length) ∧
      ∃ a ∈ (scan_protocol "_sip._1.org".toList).log, ¬ a.Ok "_sip._1.org".toList.length :=
  ⟨⟨.read 4, by decide⟩, ⟨.read 6, by decide⟩, ⟨.read 7, by decide⟩, ⟨.length 7 8, by decide⟩⟩

/-! ## The substitution of a NAPTR record -/

/-- The loop of `extract_part`, with `len` before its decrement. The terminator of the text is behind the
list. -/
def take_part (delim : Char) : Nat → List Char → List Char
  | len + 2, c :: cs => if c ≠ '\x00' ∧ c ≠ delim then c :: take_part delim (len + 1) cs else []
  | _, _ => []

def extract_part (regexp : List Char) (len : Nat) : List Char :=
  match regexp with
  | [] => []
  | delim :: rest => if len = 0 then [] else take_part delim len rest

/-- `std::isdigit(*it) && *it != '0'` -/
def backref (c : Char) : Bool := c.isDigit && c != '0'

def replace_backreferences : List Char → List Char
  | [] => []
  | c :: cs =>
    if c = '\\' then
      match cs with
      | [] => [c]
      | d :: rest => (if backref d then '$' else c) :: d :: replace_backreferences rest
    else c :: replace_backreferences cs

theorem replace_backslash (d : Char) (rest : List Char) :
    replace_backreferences ('\\' :: d :: rest) =
      (if backref d then '$' else '\\') :: d :: replace_backreferences rest := rfl

theorem replace_other {c : Char} (hc : c ≠ '\\') (cs : List Char) :
    replace_backreferences (c :: cs) = c :: replace_backreferences cs := by
  rw [replace_backreferences.eq_def]
  exact if_neg hc

def strlen (s : List Char) : Nat := (s.takeWhile (· != '\x00')).length

/-- `pcre_substitute_`; `pcre` is `pcre2_substitute`, of a pattern, a subject and a replacement. -/
def pcre_substitute_ (pcre : List Char → List Char → List Char → Option (List Char)) (regexp subject : List Char) :
    Option (List Char) :=
  let strsize := strlen regexp
  let match_ := extract_part regexp strsize
  let substitute := extract_part (regexp.drop (match_.length + 1)) (strsize - match_.length - 1)
  let substitute := replace_backreferences substitute
  if regexp[strsize - 1]? = some 'i' then pcre (lower match_) (lower subject) (lower substitute)
  else pcre match_ subject substitute

/-! ### The two languages -/

def digit_value (c : Char) : Nat := c.toNat - '0'.toNat

def digit_next (l : List Char) : Bool := l.head?.any Char.isDigit

/-- A replacement of a NAPTR record: a backslash with a digit from 1 on is a group. What a backslash means
before another character is left open. -/
def naptr_replacement (escaped : Char → List Char) (groups : List (List Char)) : List Char → Option (List Char)
  | [] => some []
  | c :: cs =>
    if c = '\\' then
      match cs with
      | [] => some [c]
      | d :: rest =>
        if backref d then
          groups[digit_value d]?.bind fun g => (naptr_replacement escaped groups rest).map (g ++ ·)
        else (naptr_replacement escaped groups rest).map (escaped d ++ ·)
    else (naptr_replacement escaped groups cs).map (c :: ·)

/-- A replacement of pcre2: a dollar with the longest run of digits is a group. The number so far is there
while the next character is a digit of one. -/
def pcre_replacement (groups : List (List Char)) : Option Nat → List Char → Option (List Char)
  | _, [] => some []
  | none, c :: cs =>
    if c = '$' ∧ digit_next cs then pcre_replacement groups (some 0) cs
    else (pcre_replacement groups none cs).map (c :: ·)
  | some n, c :: cs =>
    if digit_next cs then pcre_replacement groups (some (10 * n + digit_value c)) cs
    else groups[10 * n + digit_value c]?.bind fun g => (pcre_replacement groups none cs).map (g ++ ·)

/-- A run of digits up to the next character that is none. -/
theorem pcre_group (groups : List (List Char)) (ds rest : List Char) (hds : ds ≠ []) (hdig : ds.all Char.isDigit)
    (hrest : ¬ digit_next rest) (n : Nat) :
    pcre_replacement groups (some n) (ds ++ rest) =
      groups[ds.foldl (fun n d => 10 * n + digit_value d) n]?.bind fun g =>
        (pcre_replacement groups none rest).map (g ++ ·) := by
  induction ds generalizing n with
  | nil => exact absurd rfl hds
  | cons d ds ih =>
    rw [List.cons_append, pcre_replacement]
    cases ds with
    | nil => rw [if_neg (by simpa using hrest)]; rfl
    | cons e ds =>
      rw [List.all_cons, Bool.and_eq_true] at hdig
      have hnext : digit_next (e :: ds ++ rest) := by
        have := hdig.2
        rw [List.all_cons, Bool.and_eq_true] at this
        exact this.1
      rw [if_pos hnext, ih (List.cons_ne_nil _ _) hdig.2]
      rfl

/-- The first character is a digit after the rewrite when it was one before: a backslash and a dollar are
none. -/
theorem digit_next_replace (s : List Char) : digit_next (replace_backreferences s) = digit_next s := by
  cases s with
  | nil => rfl
  | cons c cs =>
    by_cases hc : c = '\\'
    · subst hc
      cases cs with
      | nil => rfl
      | cons d rest =>
        rw [replace_backslash]
        cases backref d <;> rfl
    · rw [replace_other hc]
      rfl

/-- Each backslash has a digit from 1 on behind it, which is no part of a longer number, or is the last
character. -/
def Escapes (s : List Char) : Prop :=
  ∀ t, '\\' :: t <:+ s → t = [] ∨ ∃ d rest, t = d :: rest ∧ backref d ∧ ¬ digit_next rest

/-- No dollar has a digit behind it. -/
def Dollars (s : List Char) : Prop := ∀ t, '$' :: t <:+ s → ¬ digit_next t

theorem Escapes.of_suffix (h : Escapes s) (ht : t <:+ s) : Escapes t :=
  fun u hu => h u (hu.trans ht)

theorem Dollars.of_suffix (h : Dollars s) (ht : t <:+ s) : Dollars t :=
  fun u hu => h u (hu.trans ht)

/-- The rewritten replacement means for pcre2 what it meant for the record. -/
theorem pcre_replace (escaped : Char → List Char) (groups : List (List Char)) (s : List Char) (hesc : Escapes s)
    (hdol : Dollars s) :
    pcre_replacement groups none (replace_backreferences s) = naptr_replacement escaped groups s := by
  fun_induction naptr_replacement escaped groups s with
  | case1 => rfl
  | case2 => rfl
  | case3 d rest hd ih =>
    -- the digit behind the backslash is the whole number of the group
    have hrest := List.suffix_append ['\\', d] rest
    obtain hnil | ⟨d', rest', heq, -, hnext⟩ := hesc (d :: rest) List.suffix_rfl
    · cases hnil
    · obtain ⟨rfl, rfl⟩ := List.cons.inj heq
      have hdigit : d.isDigit := (Bool.and_eq_true_iff.mp hd).1
      have hgroup := pcre_group groups [d] (replace_backreferences rest) (List.cons_ne_nil _ _) (by simp [hdigit])
        (by rwa [digit_next_replace]) 0
      rw [replace_backslash, if_pos hd, pcre_replacement, if_pos ⟨rfl, hdigit⟩]
      refine hgroup.trans ?_
      rw [ih (hesc.of_suffix hrest) (hdol.of_suffix hrest)]
      simp
  | case4 d rest hd ih =>
    obtain hnil | ⟨d', rest', heq, hd', -⟩ := hesc (d :: rest) List.suffix_rfl
    · cases hnil
    · obtain ⟨rfl, rfl⟩ := List.cons.inj heq
      exact absurd hd' hd
  | case5 c cs hc ih =>
    have hcs := List.suffix_cons c cs
    rw [replace_other hc, pcre_replacement, if_neg, ih (hesc.of_suffix hcs) (hdol.of_suffix hcs)]
    rintro ⟨rfl, hnext⟩
    rw [digit_next_replace] at hnext
    exact hdol cs List.suffix_rfl hnext

/-! ### The parts of the field -/

theorem take_part_eq {rest : List Char} (hnul : '\x00' ∉ part) (hdelim : delim ∉ part)
    (hlen : part.length < len) : take_part delim len (part ++ delim :: rest) = part := by
  induction part generalizing len with
  | nil =>
    rw [List.nil_append]
    unfold take_part
    split
    · rename_i heq
      obtain ⟨rfl, -⟩ := List.cons.inj heq
      rw [if_neg (by simp)]
    · rfl
  | cons c part ih =>
    simp only [List.mem_cons, not_or] at hnul hdelim
    obtain ⟨n, rfl⟩ := Nat.exists_eq_add_of_le' (show 2 ≤ len by rw [List.length_cons] at hlen; omega)
    rw [List.cons_append, take_part, if_pos ⟨Ne.symm hnul.1, Ne.symm hdelim.1⟩,
      ih hnul.2 hdelim.2 (by rw [List.length_cons] at hlen; omega)]

theorem strlen_eq (h : '\x00' ∉ s) : strlen s = s.length := by
  unfold strlen
  rw [List.takeWhile_eq_self_iff.mpr]
  intro c hc
  rw [bne_iff_ne]
  rintro rfl
  exact h hc

theorem lower_replace (h : lower s = s) : lower (replace_backreferences s) = replace_backreferences s := by
  fun_induction replace_backreferences s with
  | case1 => rfl
  | case2 => rfl
  | case3 d rest ih =>
    unfold lower at h ih ⊢
    simp only [List.map_cons, List.cons.injEq] at h ⊢
    refine ⟨?_, h.2.1, ih h.2.2⟩
    split <;> decide
  | case4 c cs hc ih =>
    unfold lower at h ih ⊢
    simp only [List.map_cons, List.cons.injEq] at h ⊢
    exact ⟨h.1, ih h.2⟩

/-- `extract_part` on a text that begins with the delimiter and has it again. -/
theorem extract_part_eq (hnul : '\x00' ∉ part) (hdelim : delim ∉ part) (hlen : part.length < len) :
    extract_part (delim :: (part ++ delim :: r)) len = part := by
  exact (if_neg (by omega)).trans (take_part_eq hnul hdelim hlen)

/-- Both parts of a field, with the last character deciding on small letters. -/
theorem pcre_substitute_eq (pcre : List Char → List Char → List Char → Option (List Char)) {m f : List Char}
    (subject : List Char) (hm : delim ∉ m) (hs : delim ∉ s)
    (hnul : '\x00' ∉ delim :: (m ++ delim :: (s ++ delim :: f))) :
    pcre_substitute_ pcre (delim :: (m ++ delim :: (s ++ delim :: f))) subject =
      if (delim :: (m ++ delim :: (s ++ delim :: f))).getLast? = some 'i' then
        pcre (lower m) (lower subject) (lower (replace_backreferences s))
      else pcre m subject (replace_backreferences s) := by
  have hsize := strlen_eq hnul
  simp only [List.mem_cons, List.mem_append, not_or] at hnul
  have hlen : (delim :: (m ++ delim :: (s ++ delim :: f))).length = m.length + s.length + f.length + 3 := by
    simp only [List.length_cons, List.length_append]
    omega
  have hmatch := extract_part_eq (r := s ++ delim :: f) hnul.2.1 hm
    (show m.length < (delim :: (m ++ delim :: (s ++ delim :: f))).length by omega)
  have hsub := extract_part_eq (r := f) hnul.2.2.2.1 hs
    (show s.length < (delim :: (m ++ delim :: (s ++ delim :: f))).length - m.length - 1 by omega)
  have hdrop : (delim :: (m ++ delim :: (s ++ delim :: f))).drop (m.length + 1) = delim :: (s ++ delim :: f) := by
    rw [List.drop_succ_cons, List.drop_left]
  unfold pcre_substitute_
  simp only [hsize, hmatch, hdrop, hsub]
  rw [List.getLast?_eq_getElem?]

end cloudbus.dns
