-- The grammar of the addresses: which lines `make_address` stays inside of, and
-- which addresses it makes of a line that keeps to the form of a URI.
import Cloudbus.MakeAddress

open Text

namespace cloudbus.config

/-! ## The bounds -/

theorem make_address_stays_in_the_line (inet : InetPton) (line : Line) (h : Reaches line) :
    ∀ a ∈ (make_address inet line).log, a.Ok (line.chars.length + 1) := by
  have hlog : ∀ a ∈ (make_address inet line).log, a.Ok line.mem.length := (ends_make_address h).log
  rwa [Line.length_mem] at hlog

variable {a : List Char}

theorem loopback_dotted {x : BitVec 32} (h : (if a = "127.0.0.1".toList then some 0x7f000001 else none) = some x) :
    (∀ c ∈ a, c.isDigit ∨ c = '.') ∧ a.count '.' = 3 := by
  split at h
  case isTrue ha =>
    have hall : "127.0.0.1".toList.all (fun c => c.isDigit || c == '.') := by decide
    rw [ha]
    refine ⟨fun c hc => ?_, by decide⟩
    simpa using List.all_eq_true.mp hall c hc
  case isFalse => cases h

theorem loopback_bracket {x : BitVec 128} (h : (if a = "::1".toList then some 1 else none) = some x) :
    a ≠ [] ∧ ']' ∉ a ∧ '\x00' ∉ a := by
  split at h
  case isTrue ha =>
    rw [ha]
    decide
  case isFalse => cases h

/-- An `inet_pton` that knows the loopback addresses. -/
def loopback : InetPton where
  v4 a := if a = "127.0.0.1".toList then some 0x7f000001 else none
  v6 a := if a = "::1".toList then some 1 else none
  dotted _ _ := loopback_dotted
  bracket _ _ := loopback_bracket

def tcpLine : Line := ⟨"tcp://127.0.0.1:80".toList, by decide⟩

theorem a_line_stays_in_bounds :
    Reaches tcpLine ∧ ∀ a ∈ (make_address loopback tcpLine).log, a.Ok 19 := by
  have hreaches : Reaches tcpLine := by decide
  exact ⟨hreaches, make_address_stays_in_the_line loopback tcpLine hreaches⟩

def shortLine : Line := ⟨"tcp:".toList, by decide⟩

/-- After `tcp:` two characters are skipped that are not there: the length that is left is below zero, and
the first character is read behind the line. -/
theorem a_short_line_is_left :
    (make_address loopback shortLine).value = none ∧
      ∀ a ∈ [Scan.Access.length 4 6, .pass 6 (2 ^ 64 - 2), .read 6],
        a ∈ (make_address loopback shortLine).log ∧ ¬ a.Ok (shortLine.chars.length + 1) := by
  decide +kernel

/-! ## The first token of a line -/

section

variable {l t s r : List Char}

variable {c : Char}

theorem isspace_of_schemeChar (h : schemeChar c) : isspace c = false := by
  rw [Bool.eq_false_iff]
  intro hs
  have hcases : c = ' ' ∨ c = '\t' ∨ c = '\n' ∨ c = '\x0b' ∨ c = '\x0c' ∨ c = '\r' := by
    simpa [isspace, or_assoc] using hs
  rcases hcases with rfl | rfl | rfl | rfl | rfl | rfl
  all_goals exact absurd h (by decide)

theorem not_space_of_mem_token (h : c ∈ token l) : isspace c = false := by
  have hnot : (!isspace c) = true := List.mem_takeWhile_imp (p := fun c => !isspace c) h
  exact (Bool.not_eq_true' _).mp hnot

/-- A text without spaces is its own token. -/
theorem token_of_not_space (h : ∀ c ∈ t, isspace c = false) : t.dropWhile isspace = t ∧ token t = t := by
  have hdrop : t.dropWhile isspace = t := by
    cases t with
    | nil => rfl
    | cons c t => exact List.dropWhile_cons_of_neg (by simp [h c (.head _)])
  refine ⟨hdrop, ?_⟩
  rw [token, hdrop]
  exact List.takeWhile_eq_self_iff.mpr fun c hc => by simp [h c hc]

theorem token_token (l : List Char) : token (token l) = token l :=
  (token_of_not_space fun _ hc => not_space_of_mem_token hc).2

/-- The scheme is looked for in the first token. -/
theorem scheme_chars (l : List Char) :
    ((l.takeWhile fun c => !isspace c).takeWhile schemeChar = l.takeWhile schemeChar) ∧
      (((l.takeWhile fun c => !isspace c).dropWhile schemeChar).head? = some ':' ↔
        (l.dropWhile schemeChar).head? = some ':') := by
  induction l with
  | nil => exact ⟨rfl, Iff.rfl⟩
  | cons c l ih =>
    by_cases hsc : schemeChar c
    · have hspace := isspace_of_schemeChar hsc
      rw [List.takeWhile_cons_of_pos (by simpa using hspace), List.takeWhile_cons_of_pos hsc,
        List.takeWhile_cons_of_pos hsc, List.dropWhile_cons_of_pos hsc, List.dropWhile_cons_of_pos hsc]
      exact ⟨congrArg (c :: ·) ih.1, ih.2⟩
    · by_cases hspace : isspace c
      · have hcolon : c ≠ ':' := by
          rintro rfl
          exact absurd hspace (by decide)
        rw [List.takeWhile_cons_of_neg (by simpa using hspace), List.takeWhile_cons_of_neg hsc,
          List.dropWhile_cons_of_neg hsc]
        simpa using hcolon
      · rw [List.takeWhile_cons_of_pos (by simpa using hspace), List.takeWhile_cons_of_neg hsc,
          List.takeWhile_cons_of_neg hsc, List.dropWhile_cons_of_neg hsc, List.dropWhile_cons_of_neg hsc]
        exact ⟨rfl, Iff.rfl⟩

theorem head?_token (l : List Char) : (token l).head? = (l.dropWhile isspace).head? := by
  unfold token
  cases h : l.dropWhile isspace with
  | nil => rfl
  | cons c t =>
    have hc : ¬ isspace c := by
      have := List.head?_dropWhile_not isspace l
      rw [h] at this
      simpa using this
    rw [List.takeWhile_cons_of_pos (by simpa using hc)]
    rfl

theorem scheme_token (l : List Char) : scheme (token l) = scheme l := by
  obtain ⟨htake, hcolon⟩ := scheme_chars (l.dropWhile isspace)
  have hdrop := (token_of_not_space fun _ hc => not_space_of_mem_token (l := l) hc).1
  unfold scheme
  dsimp only
  rw [hdrop, head?_token]
  unfold token
  rw [htake]
  simp only [hcolon]

end

/-! ## The forms of a host -/

/-- A port: digits, with the number that they are. -/
structure IsPort (p : List Char) (n : Fin (2 ^ 16)) : Prop where
  some_digit : p ≠ []
  digits : p.all Char.isDigit
  value : decimal p = n

/-- Nothing but digits follows the colon of an IPv4 address, and a colon and digits follow the brackets of
an IPv6 address. -/
def PortLast (r : List Char) : Prop :=
  (hostnameType true 0 r = .IPV4 → ((r.dropWhile (· != ':')).drop 1).all Char.isDigit) ∧
    (hostnameType true 0 r = .IPV6 → (r.drop 1).dropWhile (· != ']') = [] ∨
      '\x00' ∉ (r.drop 1).takeWhile (· != ']') ∧ ((r.drop 1).dropWhile (· != ']')).take 2 = "]:".toList ∧
        (((r.drop 1).dropWhile (· != ']')).drop 2).all Char.isDigit)

instance (r : List Char) : Decidable (PortLast r) := inferInstanceAs (Decidable (_ ∧ _))

section

variable {inet : InetPton} {r a p q : List Char} {x : BitVec 32} {y : BitVec 128} {n : Fin (2 ^ 16)}

theorem from_chars_eq_some : from_chars p = some n ↔ decimal p = n := by
  unfold from_chars
  split
  · rw [Option.some_inj, Fin.ext_iff]
  · rename_i h
    exact ⟨nofun, fun heq => absurd n.isLt (heq ▸ h)⟩

/-- Where a text is cut at a colon when it does not begin with one. -/
theorem exists_cons_cut {c : Char} (hc : c ≠ ':') (Q : List Char → Prop) :
    (∃ a p, c :: r = a ++ ':' :: p ∧ Q a) ↔ ∃ a p, r = a ++ ':' :: p ∧ Q (c :: a) := by
  constructor
  · rintro ⟨a, p, heq, hq⟩
    cases a with
    | nil => exact absurd (List.cons_eq_cons.mp heq).1 hc
    | cons d a =>
      obtain ⟨rfl, rfl⟩ := List.cons_eq_cons.mp heq
      exact ⟨a, p, rfl, hq⟩
  · rintro ⟨a, p, rfl, hq⟩
    exact ⟨c :: a, p, rfl, hq⟩

variable {v : Sockaddr × Nat} {k addrlen len : Nat} {q' : List Char}

/-- Digits and three periods before the first colon. -/
theorem hostnameType_ipv4 {first : Bool} :
    hostnameType first k r = .IPV4 ↔
      ∃ a p, r = a ++ ':' :: p ∧ (∀ c ∈ a, c.isDigit ∨ c = '.') ∧ k + a.count '.' = 3 := by
  induction r generalizing first k with
  | nil =>
    constructor
    · intro h
      cases h
    · rintro ⟨a, p, heq, -⟩
      exact absurd heq (by simp)
  | cons c r ih =>
    unfold hostnameType
    by_cases hdot : c = '.'
    · subst hdot
      rw [if_pos rfl, ih, exists_cons_cut (by decide)]
      simp only [List.mem_cons, forall_eq_or_imp, List.count_cons_self, or_true, true_and]
      simp only [Nat.add_right_comm k 1, Nat.add_assoc]
    rw [if_neg hdot]
    by_cases hcolon : c = ':'
    · subst hcolon
      rw [if_neg (by decide), if_pos rfl]
      constructor
      · intro h
        split at h
        · rename_i hk
          exact ⟨[], r, rfl, List.forall_mem_nil _, hk⟩
        · cases h
      · rintro ⟨a, p, heq, hall, hk⟩
        cases a with
        | nil => exact if_pos hk
        | cons d a =>
          obtain ⟨rfl, -⟩ := List.cons_eq_cons.mp heq
          exact absurd (hall ':' (.head _)) (by decide)
    rw [exists_cons_cut hcolon, if_neg hcolon]
    simp only [List.mem_cons, forall_eq_or_imp, List.count_cons_of_ne hdot, or_iff_left hdot]
    by_cases hdigit : c.isDigit
    · have hb : c ≠ '[' := by
        rintro rfl
        exact absurd hdigit (by decide)
      simp only [if_neg hb, hdigit, if_true, true_and, ih]
    · rw [if_neg hdigit]
      constructor
      · intro h
        split_ifs at h
      · rintro ⟨_, _, -, ⟨h, -⟩, -⟩
        exact absurd h hdigit

theorem hostnameType_false_ne : hostnameType false k r ≠ .IPV6 := by
  intro h
  induction r generalizing k with
  | nil => cases h
  | cons c r ih =>
    unfold hostnameType at h
    simp only [Bool.false_eq_true, if_false] at h
    split_ifs at h
    · exact ih h
    · exact ih h

theorem hostnameType_ipv6 : hostnameType true 0 r = .IPV6 ↔ r.head? = some '[' := by
  cases r with
  | nil => exact ⟨nofun, nofun⟩
  | cons c r =>
    unfold hostnameType
    rw [List.head?_cons, Option.some_inj]
    by_cases hb : c = '['
    · subst hb
      rw [if_neg (by decide), if_pos rfl, if_pos rfl]
      exact ⟨fun _ => rfl, fun _ => rfl⟩
    · refine ⟨fun h => ?_, fun h => absurd h hb⟩
      split_ifs at h
      · exact absurd h hostnameType_false_ne
      · exact absurd h hostnameType_false_ne

theorem c_str_eq_self (h : '\x00' ∉ a) : c_str a = a := by
  refine List.takeWhile_eq_self_iff.mpr fun c hc => ?_
  rw [bne_iff_ne]
  rintro rfl
  exact h hc

/-- What `inetAddress` makes when nothing but the port follows the address. -/
theorem inetAddress_eq_some {β : Type} {pton : List Char → Option β} {mk : β → Fin (2 ^ 16) → Sockaddr}
    (hnul : '\x00' ∉ a) (hp : p.all Char.isDigit) :
    inetAddress pton mk addrlen a p = some v ↔ ∃ x n, pton a = some x ∧ IsPort p n ∧ v = (mk x n, addrlen) := by
  unfold inetAddress
  rw [Scan.takeWhile_of_all hp, c_str_eq_self hnul]
  by_cases hnil : p = []
  · rw [if_pos hnil]
    refine ⟨nofun, ?_⟩
    rintro ⟨x, n, -, hport, -⟩
    exact absurd hnil hport.some_digit
  · rw [if_neg hnil, Option.bind_eq_some_iff]
    simp only [Option.map_eq_some_iff, from_chars_eq_some]
    constructor
    · rintro ⟨x, hx, n, hn, rfl⟩
      exact ⟨x, n, hx, ⟨hnil, hp, hn⟩, rfl⟩
    · rintro ⟨x, n, hx, hport, rfl⟩
      exact ⟨x, hx, n, hport.value, rfl⟩

/-- An IPv4 address comes of an address, a colon and a port. -/
theorem ipv4Address_eq_some (ha : ∀ c ∈ a, c.isDigit ∨ c = '.') (hp : p.all Char.isDigit) :
    ipv4Address inet (a ++ ':' :: p) = some v ↔
      ∃ x n, inet.v4 a = some x ∧ IsPort p n ∧ v = (.in4 x n, 16) := by
  have hcolon : ':' ∉ a := fun h => absurd (ha _ h) (by decide)
  have hnul : '\x00' ∉ a := fun h => absurd (ha _ h) (by decide)
  have hcut : beforeColon (a ++ ':' :: p) = a := by
    rw [beforeColon, if_pos (List.mem_append_right _ (.head _))]
    exact (cut_at hcolon p).1
  unfold ipv4Address
  dsimp only
  rw [hcut]
  by_cases hshort : a = [] ∨ a.length + 1 ≥ (a ++ ':' :: p).length
  · rw [if_pos hshort]
    refine ⟨nofun, ?_⟩
    rintro ⟨x, n, hx, hport, -⟩
    rcases hshort with rfl | hlen
    · exact absurd (inet.dotted _ _ hx).2 (by decide)
    · rw [List.length_append, List.length_cons] at hlen
      exact absurd (List.length_eq_zero_iff.mp (show p.length = 0 by omega)) hport.some_digit
  · have hdrop : (a ++ ':' :: p).drop (a.length + 1) = p := by simp
    rw [if_neg hshort, hdrop, inetAddress_eq_some hnul hp]

/-- An IPv6 address comes of an address in brackets, a colon and a port. -/
theorem ipv6Address_eq_some (ha : ']' ∉ a) (hnul : '\x00' ∉ a) (hp : p.all Char.isDigit) :
    ipv6Address inet ('[' :: a ++ ']' :: ':' :: p) = some v ↔
      ∃ y n, inet.v6 a = some y ∧ IsPort p n ∧ v = (.in6 y n, 28) := by
  have hcut : inBrackets ('[' :: a ++ ']' :: ':' :: p) = a := by
    rw [List.cons_append, inBrackets, if_pos ⟨rfl, List.mem_append_right _ (.head _)⟩]
    exact (cut_at ha (':' :: p)).1
  unfold ipv6Address
  dsimp only
  rw [hcut]
  by_cases hshort : a = [] ∨ a.length + 3 ≥ ('[' :: a ++ ']' :: ':' :: p).length
  · rw [if_pos hshort]
    constructor
    · intro h
      cases h
    · rintro ⟨x, n, hx, hport, -⟩
      rcases hshort with rfl | hlen
      · exact absurd rfl (inet.bracket _ _ hx).1
      · rw [List.length_append, List.length_cons, List.length_cons, List.length_cons] at hlen
        exact absurd (List.length_eq_zero_iff.mp (show p.length = 0 by omega)) hport.some_digit
  · have hdrop : ('[' :: a ++ ']' :: ':' :: p).drop (a.length + 3) = p := by simp
    rw [if_neg hshort, hdrop, inetAddress_eq_some hnul hp]

theorem inetAddress_form {β : Type} {pton : List Char → Option β} {mk : β → Fin (2 ^ 16) → Sockaddr}
    (h : inetAddress pton mk addrlen a p = some v) : ∃ x n, v = (mk x n, addrlen) := by
  unfold inetAddress at h
  split at h
  · cases h
  · obtain ⟨x, -, h⟩ := Option.bind_eq_some_iff.mp h
    obtain ⟨n, -, rfl⟩ := Option.map_eq_some_iff.mp h
    exact ⟨x, n, rfl⟩

theorem ipv4Address_form (h : ipv4Address inet r = some v) : ∃ x n, v = (.in4 x n, 16) := by
  unfold ipv4Address at h
  dsimp only at h
  split at h
  · cases h
  · exact inetAddress_form h

theorem ipv6Address_form (h : ipv6Address inet r = some v) :
    (∃ y n, v = (.in6 y n, 28)) ∧ ']' ∈ r.tail := by
  unfold ipv6Address at h
  dsimp only at h
  split at h
  · cases h
  · rename_i hne
    refine ⟨inetAddress_form h, ?_⟩
    by_contra hbr
    refine hne (.inl ?_)
    cases r with
    | nil => rfl
    | cons c b => exact if_neg fun h => hbr h.2

theorem urlAddress_cases : urlAddress r q = .failure ∨ urlAddress r q = .url r q ∧
    ∃ h p, r = h ++ ':' :: p ∧ ':' ∉ h ∧ p ≠ [] ∧ p.all Char.isDigit := by
  unfold urlAddress
  dsimp only
  split
  · rename_i hport
    refine .inr ⟨rfl, r.takeWhile (· != ':'), (r.dropWhile (· != ':')).drop 1, ?_, ?_, hport⟩
    · cases hd : r.dropWhile (· != ':') with
      | nil =>
        rw [hd] at hport
        exact absurd rfl hport.1
      | cons c p =>
        have hc : c = ':' := by
          have hhead := List.head?_dropWhile_not (· != ':') r
          rw [hd] at hhead
          simpa using hhead
        have happ := List.takeWhile_append_dropWhile (p := (· != ':')) (l := r)
        rw [hd, hc] at happ
        exact happ.symm
    · intro hmem
      exact absurd (List.mem_takeWhile_imp (p := (· != ':')) hmem) (by decide)
  · exact .inl rfl

/-- What can come of a host, with the branch that it comes from. -/
theorem hostAddress_cases (inet : InetPton) (q r : List Char) :
    hostAddress inet q r = .failure ∨
      (∃ x n, hostnameType true 0 r = .IPV4 ∧ ipv4Address inet r = some (.in4 x n, 16) ∧
        hostAddress inet q r = .sockaddr q (.in4 x n) 16) ∨
      (∃ y n, hostnameType true 0 r = .IPV6 ∧ ipv6Address inet r = some (.in6 y n, 28) ∧ ']' ∈ r.tail ∧
        hostAddress inet q r = .sockaddr q (.in6 y n) 28) ∨
      hostAddress inet q r = .url r q ∧ ∃ h p, r = h ++ ':' :: p ∧ ':' ∉ h ∧ p ≠ [] ∧ p.all Char.isDigit := by
  unfold hostAddress
  split
  · exact .inl rfl
  cases htype : hostnameType true 0 r with
  | HOSTNAME_ERROR => exact .inl rfl
  | IPV4 =>
    cases h4 : ipv4Address inet r with
    | none => exact .inl rfl
    | some v =>
      obtain ⟨x, n, rfl⟩ := ipv4Address_form h4
      exact .inr (.inl ⟨x, n, rfl, rfl, rfl⟩)
  | IPV6 =>
    cases h6 : ipv6Address inet r with
    | none => exact .inl rfl
    | some v =>
      obtain ⟨⟨y, n, rfl⟩, hbr⟩ := ipv6Address_form h6
      exact .inr (.inr (.inl ⟨y, n, rfl, rfl, hbr, rfl⟩))
  | HOSTNAME =>
    rcases urlAddress_cases (r := r) (q := q) with h | h
    · exact .inl h
    · exact .inr (.inr (.inr h))

theorem hostAddress_ipv4 (hlast : PortLast r) :
    hostAddress inet q r = .sockaddr q' (.in4 x n) len ↔
      q' = q ∧ len = 16 ∧ ∃ a p, r = a ++ ':' :: p ∧ inet.v4 a = some x ∧ IsPort p n := by
  constructor
  · intro h
    rcases hostAddress_cases inet q r with hc | ⟨x', n', htype, h4, hc⟩ | ⟨y', n', -, -, -, hc⟩ | ⟨hc, -⟩
    · rw [h] at hc
      cases hc
    · rw [h] at hc
      injection hc with hq haddr hlen
      injection haddr with hx hn
      subst hq hx hn hlen
      obtain ⟨a, p, rfl, ha, -⟩ := hostnameType_ipv4.mp htype
      have hp := hlast.1 htype
      have hcolon : ':' ∉ a := fun h => absurd (ha _ h) (by decide)
      rw [(cut_at hcolon p).2] at hp
      obtain ⟨x', n', hx, hport, heq⟩ := (ipv4Address_eq_some ha hp).mp h4
      cases heq
      exact ⟨rfl, rfl, a, p, rfl, hx, hport⟩
    · rw [h] at hc
      injection hc with _ haddr _
      cases haddr
    · rw [h] at hc
      cases hc
  · rintro ⟨rfl, rfl, a, p, rfl, hx, hport⟩
    obtain ⟨ha, hdots⟩ := inet.dotted _ _ hx
    have htype : hostnameType true 0 (a ++ ':' :: p) = .IPV4 :=
      hostnameType_ipv4.mpr ⟨a, p, rfl, ha, by rw [Nat.zero_add, hdots]⟩
    have h4 : ipv4Address inet (a ++ ':' :: p) = _ := (ipv4Address_eq_some ha hport.digits).mpr ⟨x, n, hx, hport, rfl⟩
    unfold hostAddress
    rw [if_neg (by simp), htype, h4]
    rfl

theorem hostAddress_ipv6 (hlast : PortLast r) :
    hostAddress inet q r = .sockaddr q' (.in6 y n) len ↔
      q' = q ∧ len = 28 ∧ ∃ a p, r = '[' :: a ++ ']' :: ':' :: p ∧ inet.v6 a = some y ∧ IsPort p n := by
  constructor
  · intro h
    rcases hostAddress_cases inet q r with hc | ⟨x', n', -, -, hc⟩ | ⟨y', n', htype, h6, hbr, hc⟩ | ⟨hc, -⟩
    · rw [h] at hc
      cases hc
    · rw [h] at hc
      injection hc with _ haddr _
      cases haddr
    · rw [h] at hc
      injection hc with hq haddr hlen
      injection haddr with hy hn
      subst hq hy hn hlen
      have hhead := hostnameType_ipv6.mp htype
      cases r with
      | nil => cases hhead
      | cons c b =>
        cases Option.some_inj.mp hhead
        obtain ⟨a, d, rfl, ha⟩ := List.eq_append_cons_of_mem (List.tail_cons ▸ hbr)
        have hlast := hlast.2 htype
        rw [List.drop_one, List.tail_cons, (cut_at ha d).1, (cut_at ha d).2] at hlast
        obtain ⟨hnul, htake, hp⟩ := hlast.resolve_left (List.cons_ne_nil _ _)
        cases d with
        | nil => exact absurd htake (by decide)
        | cons c p =>
          obtain rfl : c = ':' := by simpa using htake
          obtain ⟨y', n', hy, hport, heq⟩ := (ipv6Address_eq_some ha hnul hp).mp h6
          cases heq
          exact ⟨rfl, rfl, a, p, rfl, hy, hport⟩
    · rw [h] at hc
      cases hc
  · rintro ⟨rfl, rfl, a, p, rfl, hy, hport⟩
    obtain ⟨-, ha, hnul⟩ := inet.bracket _ _ hy
    have htype : hostnameType true 0 ('[' :: a ++ ']' :: ':' :: p) = .IPV6 := hostnameType_ipv6.mpr rfl
    have h6 : ipv6Address inet ('[' :: a ++ ']' :: ':' :: p) = _ :=
      (ipv6Address_eq_some ha hnul hport.digits).mpr ⟨y, n, hy, hport, rfl⟩
    unfold hostAddress
    rw [if_neg (by simp), htype, h6]
    rfl

end

/-! ## The grammar -/

/-- The lines that keep to the form of a URI: the scheme is at the front, `://` follows it, and nothing
follows the port. -/
def Regular (l : List Char) : Prop :=
  let t := token l
  let s := scheme t
  Supported (upper s) → (l.head?.all fun c => !isspace c) ∧ (t.drop s.length).take 3 = "://".toList ∧
    if upper s = UNIX then t.drop (s.length + 3) ≠ [] else PortLast (t.drop (s.length + 3))

instance (l : List Char) : Decidable (Regular l) := inferInstanceAs (Decidable (Supported _ → _))

/-- The schemes with an address or a URL. -/
def IsInet (protocol : List Char) : Prop := protocol = TCP ∨ protocol = UDP ∨ protocol = SCTP

/-- What the address of the token `t` has to be. -/
structure Exact (inet : InetPton) (t : List Char) (address : AddressType) : Prop where
  slashes : ∀ s rest, t = s ++ ':' :: rest → IsInet (upper s) → ¬ "//".toList <+: rest → address = .failure
  ipv4 : ∀ s r, t = s ++ ':' :: '/' :: '/' :: r → IsInet (upper s) → ∀ q x n len,
    address = .sockaddr q (.in4 x n) len ↔
      q = upper s ∧ len = 16 ∧ ∃ a p, r = a ++ ':' :: p ∧ inet.v4 a = some x ∧ IsPort p n
  ipv6 : ∀ s r, t = s ++ ':' :: '/' :: '/' :: r → IsInet (upper s) → ∀ q y n len,
    address = .sockaddr q (.in6 y n) len ↔
      q = upper s ∧ len = 28 ∧ ∃ a p, r = '[' :: a ++ ']' :: ':' :: p ∧ inet.v6 a = some y ∧ IsPort p n
  url : ∀ s r, t = s ++ ':' :: '/' :: '/' :: r → IsInet (upper s) → ∀ u q, address = .url u q →
    q = upper s ∧ u = r ∧ ∃ h p, r = h ++ ':' :: p ∧ ':' ∉ h ∧ p ≠ [] ∧ p.all Char.isDigit

section

variable {inet : InetPton} {l s rest : List Char}

variable {c : Char}

theorem isAlpha_of_toUpper (h : c.toUpper.isAlpha) : c.isAlpha := by
  by_cases hl : c.isLower
  · have hor : c.isAlpha = (c.isUpper || c.isLower) := rfl
    rw [hor, hl, Bool.or_true]
  · have heq : c.toUpper = c := by
      unfold Char.toUpper
      split
      · rename_i hc
        exact absurd (Bool.and_eq_true_iff.mpr ⟨decide_eq_true hc.1, decide_eq_true hc.2⟩) hl
      · rfl
    rwa [heq] at h

/-- The schemes that are supported are letters. -/
theorem alpha_of_supported (h : Supported (upper s)) : s ≠ [] ∧ ∀ c ∈ s, c.isAlpha := by
  have hall : upper s ≠ [] ∧ (upper s).all Char.isAlpha := by
    rcases h with h | h | h | h
    all_goals
      rw [h]
      decide
  refine ⟨fun hnil => hall.1 (by rw [hnil]; rfl), fun c hc => isAlpha_of_toUpper ?_⟩
  exact List.all_eq_true.mp hall.2 _ (List.mem_map_of_mem hc)

theorem schemeChar_of_alpha (h : c.isAlpha) : schemeChar c := by
  rw [schemeChar, h]
  rfl

theorem scheme_eq (h : Supported (upper s)) : scheme (s ++ ':' :: rest) = s := by
  obtain ⟨hne, hall⟩ := alpha_of_supported h
  have hsc : ∀ c ∈ s, schemeChar c := fun c hc => schemeChar_of_alpha (hall c hc)
  have htake : (s ++ ':' :: rest).takeWhile schemeChar = s := by
    rw [List.takeWhile_append_of_pos hsc, List.takeWhile_cons_of_neg (by decide), List.append_nil]
  have hdrop : (s ++ ':' :: rest).dropWhile schemeChar = ':' :: rest := by
    rw [List.dropWhile_append_of_pos hsc, List.dropWhile_cons_of_neg (by decide)]
  cases s with
  | nil => exact absurd rfl hne
  | cons c s =>
    have hspace : (c :: s ++ ':' :: rest).dropWhile isspace = c :: s ++ ':' :: rest :=
      List.dropWhile_cons_of_neg (by rw [isspace_of_schemeChar (hsc c (.head _))]; exact Bool.false_ne_true)
    unfold scheme
    dsimp only
    rw [hspace, hdrop, htake]
    exact if_pos ⟨hall c (.head _), rfl⟩

theorem scheme_cut (h : scheme l ≠ []) : ∃ rest, l.dropWhile isspace = scheme l ++ ':' :: rest := by
  unfold scheme at h ⊢
  dsimp only at h ⊢
  split at h
  · rename_i hc
    rw [if_pos hc]
    obtain ⟨rest, hrest⟩ := List.head?_eq_some_iff.mp hc.2
    exact ⟨rest, by rw [← hrest, List.takeWhile_append_dropWhile]⟩
  · exact absurd rfl h

/-- What a regular line is cut into: the scheme, `://`, a rest without spaces, and more tokens. -/
theorem Regular.cut (h : Regular l) (hs : Supported (upper (scheme l))) :
    ∃ r d, token l = scheme l ++ ':' :: '/' :: '/' :: r ∧ l = token l ++ d ∧ (∀ c ∈ d.head?, isspace c) ∧
      if upper (scheme l) = UNIX then r ≠ [] else PortLast r := by
  unfold Regular at h
  dsimp only at h
  rw [scheme_token] at h
  obtain ⟨hhead, hslashes, hrest⟩ := h hs
  have htoken := (token_of_not_space fun _ hc => not_space_of_mem_token (l := l) hc).1
  obtain ⟨rest, hcut⟩ := scheme_cut (l := token l) (by rw [scheme_token]; exact (alpha_of_supported hs).1)
  rw [htoken, scheme_token] at hcut
  have hdrop : (token l).drop (scheme l).length = ':' :: rest := by
    rw [hcut]
    exact List.drop_left
  rw [← List.drop_drop, hdrop] at hrest
  rw [hdrop] at hslashes
  obtain ⟨r, rfl⟩ : ∃ r, rest = '/' :: '/' :: r := by
    match rest, hslashes with
    | c :: d :: r, hslashes =>
      obtain ⟨rfl, rfl⟩ : c = '/' ∧ d = '/' := by simpa using hslashes
      exact ⟨r, rfl⟩
  have hl : l.dropWhile isspace = l := by
    cases l with
    | nil => rfl
    | cons c l => exact List.dropWhile_cons_of_neg (by simpa using hhead)
  refine ⟨r, l.dropWhile fun c => !isspace c, hcut, ?_, ?_, hrest⟩
  · rw [token, hl, List.takeWhile_append_dropWhile]
  · intro c hc
    have hnot := List.head?_dropWhile_not (fun c => !isspace c) l
    rw [Option.mem_def.mp hc] at hnot
    simpa using hnot

theorem Regular.reaches {line : Line} (h : Regular line.chars) : Reaches line := by
  intro hs
  obtain ⟨r, d, htoken, hl, -⟩ := h.cut hs
  have hlen := congrArg List.length hl
  rw [htoken] at hlen
  simp only [List.length_append, List.length_cons] at hlen
  omega

theorem takeWhile_before_space {r d : List Char} (hr : ∀ c ∈ r, isspace c = false) (hd : ∀ c ∈ d.head?, isspace c) :
    ((r ++ d).takeWhile fun c => !isspace c) = r := by
  rw [List.takeWhile_append_of_pos fun c hc => by simp [hr c hc]]
  cases d with
  | nil => exact List.append_nil _
  | cons c d => rw [List.takeWhile_cons_of_neg (by simp [hd c rfl]), List.append_nil]

/-- The address of a regular line. -/
theorem Regular.address_eq (inet : InetPton) (h : Regular l) (hs : Supported (upper (scheme l))) :
    ∃ r, token l = scheme l ++ ':' :: '/' :: '/' :: r ∧ (upper (scheme l) ≠ UNIX → PortLast r) ∧
      address inet l = if upper (scheme l) = UNIX then .of UNIX (unixAddress r)
        else hostAddress inet (upper (scheme l)) r := by
  obtain ⟨r, d, htoken, hl, hd, hrest⟩ := h.cut hs
  have hr : ∀ c ∈ r, isspace c = false := fun c hc =>
    not_space_of_mem_token (l := l) (by rw [htoken]; simp [hc])
  have hdrop : l.drop ((scheme l).length + 3) = r ++ d := by
    refine (congrArg (List.drop _) hl).trans ?_
    rw [htoken]
    simp
  refine ⟨r, htoken, fun hne => by rwa [if_neg hne] at hrest, ?_⟩
  unfold address
  dsimp only
  rw [if_neg (alpha_of_supported hs).1, if_pos hs, hdrop, takeWhile_before_space hr hd]
  by_cases hunix : upper (scheme l) = UNIX
  · rw [if_pos hunix] at hrest
    have htok : token (r ++ d) = r := by
      cases r with
      | nil => exact absurd rfl hrest
      | cons c r =>
        rw [token, List.cons_append, List.dropWhile_cons_of_neg (by simp [hr c (.head _)])]
        exact takeWhile_before_space hr hd
    rw [if_pos hunix, if_pos hunix, htok]
  · rw [if_neg hunix, if_neg hunix]

theorem Regular.token (h : Regular l) : Regular (token l) := by
  unfold Regular at h ⊢
  dsimp only at h ⊢
  rw [token_token]
  intro hs
  refine ⟨?_, (h hs).2⟩
  cases ht : config.token l with
  | nil => rfl
  | cons c t =>
    have := not_space_of_mem_token (l := l) (c := c) (by rw [ht]; exact .head _)
    simp [this]

/-- The address of a regular line is that of its first token. -/
theorem Regular.address_token (h : Regular l) : address inet (config.token l) = address inet l := by
  by_cases hs : Supported (upper (scheme l))
  · have hs' : Supported (upper (scheme (config.token l))) := by rwa [scheme_token]
    obtain ⟨r, hr, -, heq⟩ := h.address_eq inet hs
    obtain ⟨r', hr', -, heq'⟩ := h.token.address_eq inet hs'
    rw [token_token, scheme_token, hr] at hr'
    have hrr : r = r' := by simpa using hr'
    rw [heq, heq', scheme_token, hrr]
  · unfold address
    dsimp only
    rw [scheme_token, if_neg hs, if_neg hs, token_token]

theorem Regular.exact (h : Regular l) : Exact inet (config.token l) (address inet l) := by
  have hfind : ∀ {s rest}, config.token l = s ++ ':' :: rest → IsInet (upper s) →
      scheme l = s ∧ ∃ r, rest = '/' :: '/' :: r ∧ PortLast r ∧ address inet l = hostAddress inet (upper s) r := by
    intro s rest htoken hinet
    have hsup : Supported (upper s) := .inr hinet
    have hscheme : scheme l = s := by rw [← scheme_token, htoken, scheme_eq hsup]
    have hunix : upper s ≠ UNIX := by
      rcases hinet with h | h | h
      all_goals
        rw [h]
        decide
    obtain ⟨r, hr, hlast, heq⟩ := h.address_eq inet (by rwa [hscheme])
    rw [hscheme] at hr hlast heq
    rw [htoken] at hr
    exact ⟨hscheme, r, by simpa using hr, hlast hunix, by rw [heq, if_neg hunix]⟩
  refine ⟨?_, ?_, ?_, ?_⟩
  · intro s rest htoken hinet hno
    obtain ⟨-, r, rfl, -⟩ := hfind htoken hinet
    exact absurd ⟨r, rfl⟩ hno
  · intro s r htoken hinet q x n len
    obtain ⟨-, r', hr, hlast, heq⟩ := hfind htoken hinet
    obtain rfl : r = r' := by simpa using hr
    rw [heq]
    exact hostAddress_ipv4 hlast
  · intro s r htoken hinet q y n len
    obtain ⟨-, r', hr, hlast, heq⟩ := hfind htoken hinet
    obtain rfl : r = r' := by simpa using hr
    rw [heq]
    exact hostAddress_ipv6 hlast
  · intro s r htoken hinet u q hu
    obtain ⟨-, r', hr, -, heq⟩ := hfind htoken hinet
    obtain rfl : r = r' := by simpa using hr
    rw [heq] at hu
    rcases hostAddress_cases inet (upper s) r with hc | ⟨x, n, -, -, hc⟩ | ⟨y, n, -, -, -, hc⟩ | ⟨hc, hform⟩
    · rw [hu] at hc
      cases hc
    · rw [hu] at hc
      cases hc
    · rw [hu] at hc
      cases hc
    · rw [hu] at hc
      injection hc with h1 h2
      exact ⟨h2, h1, hform⟩

end

theorem length_token_le (l : List Char) : (token l).length ≤ l.length :=
  le_trans (List.takeWhile_prefix _).length_le (List.dropWhile_suffix _).length_le

/-- The line with its first token alone. -/
def Line.first (line : Line) : Line := ⟨token line.chars, lt_of_le_of_lt (length_token_le _) line.fits⟩

/-- `tcp://127.0.0.1:80 more` -/
def twoTokens : Line := ⟨"tcp://127.0.0.1:80 more".toList, by decide⟩

/-- Characters after the port, characters in place of `://`, and a space at the front that hides a
character of the address. -/
def junkAfterPort : Line := ⟨"tcp://127.0.0.1:80x".toList, by decide⟩
def noSlashes : Line := ⟨"tcp:xy127.0.0.1:80".toList, by decide⟩
def spaceInFront : Line := ⟨" tcp://127.0.0.1:80".toList, by decide⟩

end cloudbus.config
