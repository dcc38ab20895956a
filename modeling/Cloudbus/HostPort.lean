-- The host and the port of a URL: `make_url` (config/config.cpp) accepts it, and
-- `port_`, `port` and `host` (interfaces/interfaces.cpp) split it.
import Cloudbus.MakeAddress
import Cloudbus.Resolver

namespace cloudbus

open config (Line View Shows)

/-! ## The scanners of the interface -/

/-- `port_`, by iterators. -/
def port_view (uri : Line) : Scan View := do
  let delim ← Scan.find uri.mem (· == ':') 0 uri.chars.length
  if delim = uri.chars.length ∨ delim + 1 = uri.chars.length then pure .null
  else
    let stop ← Scan.find uri.mem (fun ch => !ch.isDigit) (delim + 1) (uri.chars.length - (delim + 1))
    if stop = uri.chars.length then config.view (delim + 1) stop else pure .null

/-- `port()` -/
def port_text (uri : Line) : Scan (List Char) := do
  let p ← port_view uri
  Scan.copy uri.mem p.start p.size

/-- `host()` -/
def host_text (uri : Line) : Scan (List Char) := do
  let p ← port_view uri
  if p.size = 0 then pure []
  else
    let size ← Scan.sub p.start 1
    let host ← Scan.copy uri.mem 0 size
    pure (lower host)

/-- The whole of a line. -/
def config.Line.view (u : Line) : View := ⟨0, u.chars.length⟩

section

variable (u : Line)

theorem shows_view : Shows u.mem u.view u.chars := by
  refine ⟨?_, config.Line.slice_all⟩
  rw [config.Line.length_mem]
  exact Nat.lt_succ_of_le (Nat.le_of_eq (Nat.zero_add _))

/-- A text with a port is its host, a colon and its port. -/
theorem port_cut {l : List Char} (h : port_ l ≠ []) :
    l = l.takeWhile (· != ':') ++ ':' :: port_ l ∧ (port_ l).all Char.isDigit := by
  unfold port_ at h ⊢
  split at h
  · rename_i hport
    rw [if_pos hport]
    refine ⟨?_, hport.2⟩
    have happ := List.takeWhile_append_dropWhile (p := (· != ':')) (l := l)
    have hhead := List.head?_dropWhile_not (· != ':') l
    unfold after_colon at hport ⊢
    cases hd : l.dropWhile (· != ':') with
    | nil =>
      rw [hd] at hport
      exact absurd rfl hport.1
    | cons c rest =>
      rw [hd] at happ hhead
      have hc : c = ':' := by simpa using hhead
      rw [hc] at happ
      exact happ.symm
  · exact absurd rfl h

theorem ends_port_view : ∃ v, Scan.Ends u.mem.length (port_view u) v ∧ Shows u.mem v (port_ u.chars) ∧
    (v.size ≠ 0 → v.start = (u.chars.takeWhile (· != ':')).length + 1) := by
  have hshows := shows_view u
  have hfits := u.fits
  have hrule : ∀ w, (¬ (after_colon u.chars ≠ [] ∧ (after_colon u.chars).all Char.isDigit) → w = .null) →
      (after_colon u.chars ≠ [] ∧ (after_colon u.chars).all Char.isDigit →
        Scan.Ends u.mem.length (config.view ((u.chars.takeWhile (· != ':')).length + 1) u.chars.length) w) →
      Scan.Ends u.mem.length (port_view u) w := by
    intro w hmissed hfound
    have h := @config.ends_digits_after_colon u.mem u.view u.chars View
      (fun delim stop => config.view (delim + 1) stop) (pure .null) w hshows
      (fun hbad => hmissed hbad ▸ .pure _)
      (fun hgood => by simpa only [config.Line.view, Nat.zero_add] using hfound hgood)
    unfold port_view
    simpa only [config.Line.view, Nat.zero_add] using h
  by_cases hport : after_colon u.chars ≠ [] ∧ (after_colon u.chars).all Char.isDigit
  · have heq : port_ u.chars = after_colon u.chars := if_pos hport
    have hcut := (port_cut (heq ▸ hport.1)).1
    have hlen := congrArg List.length hcut
    rw [List.length_append, List.length_cons] at hlen
    refine ⟨⟨(u.chars.takeWhile (· != ':')).length + 1, (port_ u.chars).length⟩, ?_, ⟨?_, ?_⟩, fun _ => rfl⟩
    · refine hrule _ (fun hbad => absurd hport hbad) fun _ => ?_
      exact (config.ends_view (by omega) (by omega)).congr (by rw [View.mk.injEq]; omega)
    · rw [config.Line.length_mem]
      dsimp only
      omega
    · rw [config.Line.slice_mem (by dsimp only; omega), Scan.slice]
      dsimp only
      rw [heq, after_colon, ← Scan.drop_takeWhile, List.drop_drop]
      exact List.take_of_length_le (Nat.le_refl _)
  · have heq : port_ u.chars = [] := if_neg hport
    refine ⟨.null, hrule _ (fun _ => rfl) fun hgood => absurd hgood hport, ?_, fun h => absurd rfl h⟩
    rw [heq]
    exact config.shows_null (by rw [config.Line.length_mem]; omega)

theorem ends_port_text : Scan.Ends u.mem.length (port_text u) (port_ u.chars) := by
  obtain ⟨v, hv, hshows, -⟩ := ends_port_view u
  exact hv.bind hshows.copy

/-- `host()`, as the resolver's model has it. -/
theorem ends_host_text :
    Scan.Ends u.mem.length (host_text u) (if port_ u.chars = [] then [] else lower (u.chars.takeWhile (· != ':'))) := by
  obtain ⟨v, hv, hshows, hstart⟩ := ends_port_view u
  have hfits := u.fits
  refine hv.bind ?_
  by_cases hnil : port_ u.chars = []
  · rw [if_pos hnil, if_pos (by rw [hshows.size, hnil]; rfl)]
    exact .pure _
  · have hsize : v.size ≠ 0 := by
      rw [hshows.size]
      exact fun h => hnil (List.length_eq_zero_iff.mp h)
    have hle := (List.takeWhile_prefix (· != ':') (l := u.chars)).length_le
    rw [if_neg hsize, if_neg hnil, hstart hsize]
    refine (Scan.ends_sub (by omega) (by omega)).bind ?_
    have hcopy : Scan.Ends u.mem.length (Scan.copy u.mem 0 (u.chars.takeWhile (· != ':')).length) _ :=
      Scan.ends_copy (by rw [config.Line.length_mem]; omega)
    rw [config.Line.slice_mem (by omega), Scan.slice, List.drop_zero, Scan.take_takeWhile] at hcopy
    rw [Nat.add_sub_cancel]
    exact hcopy.bind (.pure _)

end

/-- What `make_url` makes of a text goes together with the port and the host that the interface finds. -/
structure Agree (u protocol : List Char) (address : config.AddressType) (port host : List Char) : Prop where
  accepted : address = .url u protocol ↔ port ≠ []
  rejected : address = .failure ↔ port = []
  digits : port.all Char.isDigit
  split : port ≠ [] → ∃ h, u = h ++ ':' :: port ∧ ':' ∉ h ∧ host ++ ':' :: port = lower h ++ ':' :: port

theorem make_url_accepts_what_port_splits (u : Line) (protocol : List Char) :
    ∃ address port host, (config.make_url u.mem u.view protocol).value = some address ∧
      (port_text u).value = some port ∧ (host_text u).value = some host ∧ Agree u.chars protocol address port host := by
  refine ⟨_, _, _, (config.ends_make_url (shows_view u)).value, (ends_port_text u).value, (ends_host_text u).value, ?_⟩
  by_cases hport : port_ u.chars = []
  · have hbad : ¬ (after_colon u.chars ≠ [] ∧ (after_colon u.chars).all Char.isDigit) := by
      intro hgood
      rw [port_, if_pos hgood] at hport
      exact hgood.1 hport
    have hfail : config.urlAddress u.chars protocol = .failure := if_neg hbad
    rw [hfail, hport]
    exact ⟨⟨nofun, fun h => absurd rfl h⟩, ⟨fun _ => rfl, fun _ => rfl⟩, rfl, fun h => absurd rfl h⟩
  · obtain ⟨hcut, hdigits⟩ := port_cut hport
    have hgood : after_colon u.chars ≠ [] ∧ (after_colon u.chars).all Char.isDigit := by
      by_contra hbad
      exact hport (if_neg hbad)
    have hurl : config.urlAddress u.chars protocol = .url u.chars protocol := if_pos hgood
    rw [hurl, if_neg hport]
    refine ⟨⟨fun _ => hport, fun _ => rfl⟩, ⟨nofun, fun h => absurd h hport⟩, hdigits, fun _ => ?_⟩
    refine ⟨_, hcut, fun hmem => ?_, rfl⟩
    exact absurd (List.mem_takeWhile_imp (p := (· != ':')) hmem) (by decide)

end cloudbus
