import Zos.Downloader.Network

/-!
# Where the downloader connects

The redirect loop keeps its rules on every chain: at most six requests, plain HTTP or HTTPS
URLs without credentials, no step back from HTTPS. The rule on addresses fails in two ways.
`is_public_ipv6` accepts 6to4 and Teredo addresses, whatever IPv4 address they lead to, and a
literal IPv6 address is refused, since it is looked up with its brackets. `Safe` holds exactly
when a call meets neither.
-/

namespace Zos.Downloader.Network

variable {parse : String → Option Url} {join : Url → String → Option Url} {world : Nat → Hop}
  {url next : Url} {left : Nat} {hop : Hop} {contacted : List IpAddr} {visit : Visit}

/-! ## What the rules are -/

/-- The IPv4 addresses that a 6to4 or Teredo address leads to; Teredo stores that of the client
with its bits inverted. -/
def embedded (address : Ipv6Addr) : List Ipv4Addr :=
  if inPrefix address (groups 0x2002 0) 16 then [address.extractLsb' 80 32]
  else if inPrefix address (groups 0x2001 0) 32 then
    [address.extractLsb' 64 32, ~~~address.extractLsb' 0 32]
  else []

def Allowed : IpAddr → Prop
  | .v4 address => isPublicIpv4 address
  | .v6 address => isPublicIpv6 address ∧ ∀ inner ∈ embedded address, isPublicIpv4 inner

/-- Only allowed addresses are contacted, and a literal IPv6 address that is one is. -/
structure Visit.Safe (visit : Visit) : Prop where
  allowed : ∀ address ∈ visit.contacted, Allowed address
  literal : ∀ address, visit.url.host = some (.ipv6 address) → Allowed (.v6 address) →
    visit.contacted = [.v6 address]

structure PlainUrl (url : Url) : Prop where
  scheme : url.scheme = "http" ∨ url.scheme = "https"
  username : url.username = ""
  password : url.password = none

structure Safe (visits : List Visit) : Prop where
  visit : ∀ visit ∈ visits, visit.Safe
  bounded : visits.length ≤ 6
  plain : ∀ visit ∈ visits, PlainUrl visit.url
  upgrade : visits.Pairwise fun earlier later =>
    earlier.url.scheme = "https" → later.url.scheme = "https"

theorem safe_nil : Safe [] :=
  ⟨fun _ => nofun, Nat.zero_le _, fun _ => nofun, .nil⟩

/-! ## The loop -/

theorem plainUrl_of_validateUrl (h : validateUrl url = .ok ()) : PlainUrl url := by
  unfold validateUrl at h
  split at h
  · cases h
  · next hscheme =>
      split at h
      · cases h
      · next hcredentials =>
          rw [not_or, Option.not_isSome_iff_eq_none, not_not] at hcredentials
          rw [not_and_or, not_not, not_not] at hscheme
          exact ⟨hscheme, hcredentials.1, hcredentials.2⟩

theorem nextUrl_ok {location : Option String} (h : nextUrl join url location = .ok next) :
    PlainUrl next ∧ (url.scheme = "https" → next.scheme = "https") := by
  unfold nextUrl at h
  cases hjoin : location.bind (join url) with
  | none => rw [hjoin] at h; cases h
  | some target =>
      rw [hjoin] at h
      cases hvalid : validateUrl target with
      | error code => simp [bind, Except.bind, hvalid] at h
      | ok u =>
          simp only [bind, Except.bind, Option.elim, hvalid] at h
          split at h
          · next hallowed =>
              cases h
              refine ⟨plainUrl_of_validateUrl hvalid, fun hscheme => ?_⟩
              simpa [redirectSchemeAllowed, hscheme] using hallowed
          · cases h

/-- What every visit of the loop has, given for one visit. -/
theorem follow_visits (join : Url → String → Option Url) (world : Nat → Hop) (left : Nat)
    {P : Visit → Prop} {start : Url} (hplain : PlainUrl start)
    (hvisit : ∀ url hop, PlainUrl url → P ⟨url, hop,
      (resolvePublicAddresses hop url.host).toOption.getD []⟩) :
    (∀ visit ∈ (follow join world start left).1, P visit) ∧
    (follow join world start left).1.length ≤ left + 1 ∧
    (∀ visit ∈ (follow join world start left).1, PlainUrl visit.url ∧
      (start.scheme = "https" → visit.url.scheme = "https")) ∧
    (follow join world start left).1.Pairwise fun earlier later =>
      earlier.url.scheme = "https" → later.url.scheme = "https" := by
  have hfirst := hvisit start (world left) hplain
  induction left generalizing start with
  | zero =>
      unfold follow
      split <;> simp_all [Except.toOption]
  | succ rest ih =>
      unfold follow
      split
      · simp_all [Except.toOption]
      · simp_all [Except.toOption]
      · simp_all [Except.toOption]
      · simp_all
      · next contacted location _ hresolve hreply heq =>
          cases heq
          rw [hresolve] at hfirst
          split
          · simp_all [Except.toOption]
          · next next hnext =>
              obtain ⟨hplain', hup⟩ := nextUrl_ok hnext
              obtain ⟨hP, hlength, hall, hpairs⟩ :=
                ih hplain' (hvisit next (world rest) hplain')
              refine ⟨?_, ?_, ?_, ?_⟩
              · simpa using ⟨hfirst, hP⟩
              · simpa using hlength
              · simp only [List.mem_cons, forall_eq_or_imp]
                exact ⟨⟨hplain, id⟩, fun visit hmem =>
                  ⟨(hall visit hmem).1, fun hscheme => (hall visit hmem).2 (hup hscheme)⟩⟩
              · rw [List.pairwise_cons]
                exact ⟨fun visit hmem hscheme => (hall visit hmem).2 (hup hscheme), hpairs⟩

/-! ## One visit -/

/-- The host is not a literal IPv6 address that could be contacted, and no public address that
its name is looked up to leads to a denied one. -/
def Visit.Avoids (visit : Visit) : Prop :=
  match visit.url.host with
  | some (.ipv6 address) => ¬Allowed (.v6 address)
  | some (.domain _) => ∀ addresses, visit.hop.lookup = .ok addresses →
      ∀ address, .v6 address ∈ addresses → isPublicIpv6 address →
        ∀ inner ∈ embedded address, isPublicIpv4 inner
  | _ => True

theorem resolvePublicAddresses_getD (hop : Hop) (host : Option Host) :
    (resolvePublicAddresses hop host).toOption.getD [] =
      ((addresses hop host).toOption.getD []).filter isPublicIp := by
  unfold resolvePublicAddresses
  cases addresses hop host with
  | error code => rfl
  | ok all =>
      simp only [Except.toOption, Option.getD_some]
      cases all.filter isPublicIp <;> rfl

theorem visit_safe_iff (url : Url) (hop : Hop) :
    Visit.Safe ⟨url, hop, (resolvePublicAddresses hop url.host).toOption.getD []⟩ ↔
      Visit.Avoids ⟨url, hop, (resolvePublicAddresses hop url.host).toOption.getD []⟩ := by
  rw [resolvePublicAddresses_getD]
  unfold Visit.Avoids
  cases hhost : url.host with
  | none => exact iff_of_true ⟨by simp [addresses, Except.toOption], by simp [hhost]⟩ trivial
  | some host =>
      cases host with
      | ipv4 address =>
          refine iff_of_true ⟨?_, by simp [hhost]⟩ trivial
          simp [addresses, Except.toOption, isPublicIp, Allowed]
      | ipv6 address =>
          -- nothing is contacted, which is right only for an address that may not be
          constructor
          · intro hsafe hallowed
            cases hsafe.literal address hhost hallowed
          · intro hdenied
            refine ⟨by simp [addresses, Except.toOption], fun other hother hallowed => ?_⟩
            rw [hhost] at hother
            cases hother
            exact absurd hallowed hdenied
      | domain name =>
          have hcontacted : ∀ address, address ∈
              ((addresses hop (some (.domain name))).toOption.getD []).filter isPublicIp ↔
              (∃ all, hop.lookup = .ok all ∧ address ∈ all) ∧ isPublicIp address := by
            intro address
            cases hlookup : hop.lookup <;> simp [addresses, hlookup, Except.toOption]
          constructor
          · intro hsafe all hall address hmem hpublic
            exact (hsafe.allowed _ ((hcontacted _).mpr ⟨⟨all, hall, hmem⟩, hpublic⟩)).2
          · intro havoids
            refine ⟨fun address hmem => ?_, by simp [hhost]⟩
            obtain ⟨⟨all, hall, hmem⟩, hpublic⟩ := (hcontacted address).mp hmem
            cases address with
            | v4 address => exact hpublic
            | v6 address => exact ⟨hpublic, havoids all hall address hmem hpublic⟩

/-- Whatever URL a call starts from, however names are looked up and servers redirect: it keeps
the rules exactly when no visit meets one of the two kinds of address. -/
theorem get_safe_iff (parse : String → Option Url) (join : Url → String → Option Url)
    (world : Nat → Hop) (rawUrl : String) :
    Safe (get parse join world rawUrl).1 ↔
      ∀ visit ∈ (get parse join world rawUrl).1, visit.Avoids := by
  unfold get parseUrl
  cases parse rawUrl with
  | none => exact iff_of_true safe_nil fun _ => nofun
  | some url =>
      cases hvalid : validateUrl url with
      | error code =>
          simp only [bind, Except.bind, Option.elim, hvalid]
          exact iff_of_true safe_nil fun _ => nofun
      | ok u =>
          simp only [bind, Except.bind, Option.elim, hvalid]
          obtain ⟨hsafe, hlength, hplain, hpairs⟩ := follow_visits join world maxRedirects
            (P := fun visit => visit.Safe ↔ visit.Avoids) (plainUrl_of_validateUrl hvalid)
            fun url hop _ => visit_safe_iff url hop
          constructor
          · exact fun h visit hmem => (hsafe visit hmem).mp (h.visit visit hmem)
          · exact fun h => ⟨fun visit hmem => (hsafe visit hmem).mpr (h visit hmem), hlength,
              fun visit hmem => (hplain visit hmem).1, hpairs⟩

/-- The visits for a host and what its name is looked up to. -/
def visitsTo (host : Host) (lookup : List IpAddr) : List Visit :=
  (get (fun _ => some ⟨"https", "", none, some host⟩) (fun _ _ => none)
    (fun _ => ⟨.ok lookup, .status 200⟩) "").1

/-- A name that is looked up to the 6to4 address of the loopback network is contacted there; the
literal address of a public resolver is refused. -/
theorem get_not_safe :
    ¬Safe (visitsTo (.domain "host") [.v6 (groups 0x2002 0x7f00)]) ∧
      ¬Safe (visitsTo (.ipv6 (groups 0x2606 0x4700)) []) := by
  constructor
  · intro h
    obtain ⟨visit, hvisits, hcontacted⟩ := List.map_eq_singleton_iff.mp
      (show (visitsTo (.domain "host") [.v6 (groups 0x2002 0x7f00)]).map (·.contacted) =
        [[.v6 (groups 0x2002 0x7f00)]] by decide)
    obtain ⟨-, hinner⟩ := (h.visit visit (hvisits ▸ List.mem_singleton_self visit)).allowed _
      (hcontacted ▸ List.mem_singleton_self _)
    have hembedded : embedded (groups 0x2002 0x7f00) = [0x7f000000] := by decide
    rw [hembedded] at hinner
    exact absurd (hinner _ (List.mem_singleton_self _)) (by decide)
  · intro h
    obtain ⟨visit, hvisits, hvisit⟩ := List.map_eq_singleton_iff.mp
      (show (visitsTo (.ipv6 (groups 0x2606 0x4700)) []).map (fun v => (v.url.host, v.contacted)) =
        [(some (.ipv6 (groups 0x2606 0x4700)), [])] by decide)
    obtain ⟨hhost, hcontacted⟩ := Prod.mk.inj hvisit
    have hembedded : embedded (groups 0x2606 0x4700) = [] := by decide
    have hallowed : Allowed (.v6 (groups 0x2606 0x4700)) := by
      refine ⟨by decide, ?_⟩
      rw [hembedded]
      exact nofun
    have hliteral := (h.visit visit (hvisits ▸ List.mem_singleton_self visit)).literal _ hhost
      hallowed
    rw [hcontacted] at hliteral
    cases hliteral

end Zos.Downloader.Network
