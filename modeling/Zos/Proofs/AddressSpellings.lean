import Zos.Hostd.EthernetValidation

/-!
# Spellings of addresses

Settings are accepted by parsing their addresses, and compared as texts with what NetworkManager
prints. Two spellings of the same settings are treated alike, whatever NetworkManager reports, and
neither is rolled back while it is in force, exactly if the device is disabled, or each text that
is compared with a device is spelled as NetworkManager spells it and the remaining ones are in
both spellings or in neither.
-/

namespace Zos.Hostd.EthernetValidation

/-! ## Texts of the settings -/

def FamilyConfig.map {α β : Type} (f : α → β) (config : FamilyConfig α) : FamilyConfig β :=
  { config with
    address := config.address.map f
    gateway := config.gateway.map f
    dns := config.dns.map f }

def FamilyConfig.texts {α : Type} (config : FamilyConfig α) : List α :=
  config.address.toList ++ config.gateway.toList ++ config.dns

theorem FamilyConfig.map_eq_self_iff {α : Type} {f : α → α} {config : FamilyConfig α} :
    config.map f = config ↔ ∀ text ∈ config.texts, f text = text := by
  obtain ⟨mode, address, length, gateway, dnsMode, dns, useDefaultRoute, metric⟩ := config
  have hoption (o : Option α) : o.map f = o ↔ ∀ text ∈ o.toList, f text = text := by
    cases o <;> simp
  have hlist : dns.map f = dns ↔ ∀ text ∈ dns, f text = text := by
    have hid := List.map_inj_left (l := dns) (f := f) (g := id)
    rwa [List.map_id] at hid
  simp [FamilyConfig.map, FamilyConfig.texts, hoption, hlist, or_imp, forall_and]

/-- The settings of both families, each text seen as a text of its family. -/
def EthernetConfig.mapTexts {α β : Type} (f : Family → α → β) (config : EthernetConfig α) :
    EthernetConfig β where
  enabled := config.enabled
  ipv4 := config.ipv4.map (f .v4)
  ipv6 := config.ipv6.map (f .v6)

variable (env : Env)

/-- Two accepted configurations of the same addresses. -/
structure Respelling where
  first : EthernetConfig String
  second : EthernetConfig String
  firstValid : validateConfig env first = .ok ()
  secondValid : validateConfig env second = .ok ()
  same : first.mapTexts env.parse = second.mapTexts env.parse

def Printed (family : Family) (text : String) : Prop := ∃ addr, env.print family addr = text

/-- A text as NetworkManager spells it. -/
def respell (family : Family) (text : String) : String :=
  ((env.parse family text).map (env.print family)).getD ""

/-- Every address that `nmcli` prints is in its spelling. -/
structure Reported (device : RuntimeDevice) (active : Option ProfileConfig) : Prop where
  addresses : ∀ address ∈ device.addresses, Printed env address.family address.address
  gateways : ∀ family, ∀ text ∈ device.gateway family, Printed env family text
  profile : ∀ profile ∈ active, ∀ family, ∀ text ∈ (profile.config.family family).texts,
    Printed env family text

structure SpellingFree (managedProfileId : String) (pair : Respelling env) : Prop where
  applied : ∀ device active, Reported env device active →
    desiredIsApplied ⟨pair.first, managedProfileId⟩ device active =
      desiredIsApplied ⟨pair.second, managedProfileId⟩ device active
  validated : ∀ device, Reported env device none →
    validateDeviceApplied ⟨pair.first, managedProfileId⟩ device =
      validateDeviceApplied ⟨pair.second, managedProfileId⟩ device
  /-- A device that has taken the addresses over is not rolled back. -/
  kept : ∀ device, Reported env device none → ∀ config, config = pair.first ∨ config = pair.second →
    validateDeviceApplied ⟨config.mapTexts (respell env), managedProfileId⟩ device = .ok () →
      validateDeviceApplied ⟨config, managedProfileId⟩ device = .ok ()

/-- The texts that are compared with a device are in NetworkManager's spelling. -/
def Compared (config : EthernetConfig String) : Prop :=
  ∀ family, (config.family family).mode = .static →
    (∀ text ∈ (config.family family).address, Printed env family text) ∧
    ((config.family family).useDefaultRoute = true →
      ∀ text ∈ (config.family family).gateway, Printed env family text)

def AllPrinted (config : EthernetConfig String) : Prop :=
  ∀ family, ∀ text ∈ (config.family family).texts, Printed env family text

variable {env}

theorem printed_respell {family : Family} {text : String}
    (h : (env.parse family text).isSome) : Printed env family (respell env family text) := by
  obtain ⟨addr, haddr⟩ := Option.isSome_iff_exists.mp h
  exact ⟨addr, by simp [respell, haddr]⟩

theorem Printed.respell_eq {family : Family} {text : String} (h : Printed env family text) :
    respell env family text = text := by
  obtain ⟨addr, rfl⟩ := h
  simp [respell, env.parse_print]

theorem family_mapTexts {α β : Type} (f : Family → α → β) (config : EthernetConfig α)
    (family : Family) :
    (config.mapTexts f).family family = (config.family family).map (f family) := by
  cases family <;> rfl

/-! ## Accepted settings -/

@[simp]
theorem check_eq_ok_iff {valid : Bool} {error : HostdError} :
    check valid error = .ok () ↔ valid = true := by
  cases valid <;> simp [check]

theorem bind_eq_ok_iff {first rest : Except HostdError Unit} :
    (first >>= fun _ => rest) = .ok () ↔ first = .ok () ∧ rest = .ok () := by
  cases first <;> simp [bind, Except.bind]

theorem validateFamily_texts {family : Family} {config : FamilyConfig String}
    (h : validateFamily env family config = .ok ()) :
    (∀ text ∈ config.texts, (env.parse family text).isSome) ∧
      (config.mode = .static → config.address.isSome) := by
  obtain ⟨mode, address, length, gateway, dnsMode, dns, useDefaultRoute, metric⟩ := config
  simp only [validateFamily, validateStatic, bind_eq_ok_iff, check_eq_ok_iff] at h
  obtain ⟨-, hstatic, hdns⟩ := h
  split at hstatic
  · simp only [bind_eq_ok_iff, check_eq_ok_iff] at hstatic
    cases address <;> cases gateway <;>
      simp_all [FamilyConfig.texts, matchesFamily]
  · simp only [check_eq_ok_iff] at hstatic
    cases address <;> cases gateway <;>
      simp_all [FamilyConfig.texts, matchesFamily]

theorem validateConfig_family {config : EthernetConfig String}
    (h : validateConfig env config = .ok ()) (family : Family) :
    validateFamily env family (config.family family) = .ok () := by
  obtain ⟨hv4, hv6⟩ := bind_eq_ok_iff.mp h
  cases family <;> assumption

/-! ## What a device is compared with -/

/-- The checks of one family. -/
def AppliedTo (device : RuntimeDevice) (family : Family) (config : FamilyConfig String) : Prop :=
  validateFamilyAddresses family config device.addresses = .ok () ∧
    validateStaticGateway family config (device.gateway family) = .ok () ∧
    validateDefaultRoute family config (device.metric family) = .ok ()

theorem validateDeviceApplied_iff {entry : DesiredDevice} {device : RuntimeDevice}
    (henabled : entry.config.enabled = true) : validateDeviceApplied entry device = .ok () ↔
      device.connectionId = some entry.managedProfileId ∧
        ∀ family, AppliedTo device family (entry.config.family family) := by
  have hfamilies {P : Family → Prop} : (∀ family, P family) ↔ P .v4 ∧ P .v6 :=
    ⟨fun h => ⟨h .v4, h .v6⟩, fun h family => by cases family <;> simp [h]⟩
  simp only [validateDeviceApplied, henabled, not_true, if_false, bind_eq_ok_iff, check_eq_ok_iff,
    decide_eq_true_eq, hfamilies, AppliedTo, EthernetConfig.family, RuntimeDevice.gateway,
    RuntimeDevice.metric]
  grind

/-- The same for a device. -/
structure Alike (left right : FamilyConfig String) : Prop where
  mode : left.mode = right.mode
  prefixLength : left.prefixLength = right.prefixLength
  useDefaultRoute : left.useDefaultRoute = right.useDefaultRoute
  routeMetric : left.routeMetric = right.routeMetric
  address : left.mode = .static → left.address = right.address
  gateway : left.mode = .static → left.useDefaultRoute = true → left.gateway = right.gateway

theorem Alike.validate {left right : FamilyConfig String} (h : Alike left right)
    (family : Family) :
    (∀ addresses, validateFamilyAddresses family left addresses =
      validateFamilyAddresses family right addresses) ∧
    (∀ active, validateStaticGateway family left active =
      validateStaticGateway family right active) ∧
    ∀ metric, validateDefaultRoute family left metric =
      validateDefaultRoute family right metric := by
  obtain ⟨mode, address, length, gateway, _, _, useDefaultRoute, metric⟩ := left
  obtain ⟨mode', address', length', gateway', _, _, useDefaultRoute', metric'⟩ := right
  obtain ⟨rfl, rfl, rfl, rfl, haddress, hgateway⟩ := h
  simp only at haddress hgateway
  refine ⟨fun addresses => ?_, fun active => ?_, fun _ => rfl⟩
  · cases mode with
    | static =>
        obtain rfl := haddress rfl
        rfl
    | _ => cases family <;> rfl
  · cases mode with
    | static =>
        cases useDefaultRoute with
        | true =>
            obtain rfl := hgateway rfl rfl
            rfl
        | false => rfl
    | _ => rfl

theorem validateDeviceApplied_congr {left right : EthernetConfig String} {id : String}
    (henabled : left.enabled = right.enabled)
    (h : ∀ family, Alike (left.family family) (right.family family)) (device : RuntimeDevice) :
    validateDeviceApplied ⟨left, id⟩ device = validateDeviceApplied ⟨right, id⟩ device := by
  obtain ⟨haddresses, hgateway, hroute⟩ := (h .v4).validate .v4
  obtain ⟨haddresses', hgateway', hroute'⟩ := (h .v6).validate .v6
  simp only [EthernetConfig.family] at haddresses hgateway hroute haddresses' hgateway' hroute'
  simp only [validateDeviceApplied, henabled, haddresses, hgateway, hroute, haddresses',
    hgateway', hroute']

theorem Compared.validate_eq {config : EthernetConfig String} (h : Compared env config)
    {id : String} (device : RuntimeDevice) :
    validateDeviceApplied ⟨config, id⟩ device =
      validateDeviceApplied ⟨config.mapTexts (respell env), id⟩ device := by
  have hsome {family : Family} {text : Option String}
      (hprinted : ∀ t ∈ text, Printed env family t) : text = text.map (respell env family) := by
    cases text with
    | none => rfl
    | some t => rw [Option.map_some, (hprinted t rfl).respell_eq]
  have henabled : config.enabled = (config.mapTexts (respell env)).enabled := rfl
  refine validateDeviceApplied_congr henabled (fun family => ?_) device
  rw [family_mapTexts]
  exact ⟨rfl, rfl, rfl, rfl, fun hstatic => hsome (h family hstatic).1,
    fun hstatic hdefault => hsome ((h family hstatic).2 hdefault)⟩

/-! ## A device that has taken the settings over -/

/-- The addresses of one family. -/
def runningAddresses (env : Env) (family : Family) (config : FamilyConfig String) :
    List EthernetAddress :=
  match config.mode with
  | .disabled => []
  | .static => config.address.toList.map (⟨family, ·, config.prefixLength, none⟩)
  | _ => [⟨family, env.print family (env.unspecified family), none, none⟩]

def runningMetric (config : FamilyConfig String) : Option Nat :=
  if config.mode ≠ .disabled ∧ config.useDefaultRoute then some config.routeMetric else none

def running (env : Env) (id : String) (config : EthernetConfig String) : RuntimeDevice where
  connectionId := some id
  addresses := runningAddresses env .v4 config.ipv4 ++ runningAddresses env .v6 config.ipv6
  ipv4Gateway := config.ipv4.gateway
  ipv6Gateway := config.ipv6.gateway
  ipv4DefaultRouteMetric := runningMetric config.ipv4
  ipv6DefaultRouteMetric := runningMetric config.ipv6

theorem filter_running (id : String) (config : EthernetConfig String) (family : Family) :
    (running env id config).addresses.filter (·.family = family) =
      runningAddresses env family (config.family family) := by
  have hfamily (f : Family) (c : FamilyConfig String) : ∀ a ∈ runningAddresses env f c,
      a.family = f := by
    intro a ha
    unfold runningAddresses at ha
    split at ha <;> simp_all
    obtain ⟨_, _, rfl⟩ := ha
    rfl
  rw [running, List.filter_append]
  cases family with
  | v4 =>
      rw [List.filter_eq_self.mpr fun a ha => by simp [hfamily _ _ a ha],
        List.filter_eq_nil_iff.mpr fun a ha => by simp [hfamily _ _ a ha], List.append_nil]
      rfl
  | v6 =>
      rw [List.filter_eq_nil_iff.mpr fun a ha => by simp [hfamily _ _ a ha],
        List.filter_eq_self.mpr fun a ha => by simp [hfamily _ _ a ha], List.nil_append]
      rfl

theorem running_applied {id : String} {config : EthernetConfig String}
    (henabled : config.enabled = true)
    (haddress : ∀ family, (config.family family).mode = .static →
      (config.family family).address.isSome) :
    validateDeviceApplied ⟨config, id⟩ (running env id config) = .ok () := by
  refine (validateDeviceApplied_iff henabled).mpr ⟨rfl, fun family => ⟨?_, ?_, ?_⟩⟩
  · rw [validateFamilyAddresses, check_eq_ok_iff]
    unfold familyApplied
    simp only [filter_running, runningAddresses]
    cases hmode : (config.family family).mode with
    | disabled => rfl
    | static =>
        obtain ⟨address, haddress⟩ := Option.isSome_iff_exists.mp (haddress family hmode)
        simp [haddress]
    | _ => cases family <;> simp
  · have hgateway : (running env id config).gateway family = (config.family family).gateway := by
      cases family <;> rfl
    simp [validateStaticGateway, hgateway]
  · have hmetric : (running env id config).metric family =
        runningMetric (config.family family) := by
      cases family <;> rfl
    unfold validateDefaultRoute runningMetric at *
    rw [hmetric]
    by_cases hroute : (config.family family).mode ≠ .disabled ∧
        (config.family family).useDefaultRoute = true
    · simp [hroute]
    · have hnone : ((config.family family).mode ≠ .disabled &&
          (config.family family).useDefaultRoute) = false := by
        simpa using hroute
      rw [if_neg hroute, hnone]

/-! ## Both spellings -/

theorem Respelling.respell_eq (pair : Respelling env) :
    pair.first.mapTexts (respell env) = pair.second.mapTexts (respell env) := by
  have hparsed (config : EthernetConfig String) : config.mapTexts (respell env) =
      (config.mapTexts env.parse).mapTexts fun family addr =>
        (addr.map (env.print family)).getD "" := by
    have hrespell (family : Family) : respell env family = fun text =>
      ((env.parse family text).map (env.print family)).getD "" := rfl
    simp [EthernetConfig.mapTexts, FamilyConfig.map, hrespell, Function.comp_def]
  rw [hparsed, hparsed, pair.same]

section Valid

variable {config : EthernetConfig String} (hvalid : validateConfig env config = .ok ())
include hvalid

theorem parse_isSome {family : Family} {text : String}
    (h : text ∈ (config.family family).texts) : (env.parse family text).isSome :=
  (validateFamily_texts (validateConfig_family hvalid family)).1 text h

theorem allPrinted_iff : AllPrinted env config ↔ config.mapTexts (respell env) = config := by
  have hfamily : config.mapTexts (respell env) = config ↔
      ∀ family, (config.family family).map (respell env family) = config.family family := by
    refine ⟨fun h family => by rw [← family_mapTexts, h], fun h => ?_⟩
    have hv4 := h .v4
    have hv6 := h .v6
    simp only [EthernetConfig.family] at hv4 hv6
    rw [EthernetConfig.mapTexts, hv4, hv6]
  simp only [hfamily, FamilyConfig.map_eq_self_iff]
  refine forall_congr' fun family => forall_congr' fun text => forall_congr' fun htext =>
    ⟨Printed.respell_eq, fun heq => heq ▸ printed_respell (parse_isSome hvalid htext)⟩

theorem allPrinted_respell : AllPrinted env (config.mapTexts (respell env)) := by
  intro family text htext
  have hmap (c : FamilyConfig String) (f : String → String) :
      (c.map f).texts = c.texts.map f := by
    cases ha : c.address <;> cases hg : c.gateway <;>
      simp [FamilyConfig.map, FamilyConfig.texts, ha, hg]
  rw [family_mapTexts, hmap] at htext
  obtain ⟨original, horiginal, rfl⟩ := List.mem_map.mp htext
  exact printed_respell (parse_isSome hvalid horiginal)

theorem reported_running (id : String) :
    Reported env (running env id (config.mapTexts (respell env))) none := by
  have hall := allPrinted_respell hvalid
  refine ⟨?_, fun family text htext => hall family text ?_, fun _ h => nomatch h⟩
  · have hfamily (family : Family) : ∀ address ∈ runningAddresses env family
        ((config.mapTexts (respell env)).family family),
          Printed env address.family address.address := by
      intro address haddress
      unfold runningAddresses at haddress
      split at haddress
      · cases haddress
      · obtain ⟨text, htext, rfl⟩ := List.mem_map.mp haddress
        exact hall family text (by simp [FamilyConfig.texts, Option.mem_toList.mp htext])
      · obtain rfl := List.mem_singleton.mp haddress
        exact ⟨_, rfl⟩
    intro address haddress
    exact (List.mem_append.mp haddress).elim (hfamily .v4 address) (hfamily .v6 address)
  · have hgateway : (running env id (config.mapTexts (respell env))).gateway family =
        ((config.mapTexts (respell env)).family family).gateway := by
      cases family <;> rfl
    rw [hgateway] at htext
    simp [FamilyConfig.texts, Option.mem_def.mp htext]

/-- If it is not rolled back while it is in force, what is compared is printed so. -/
theorem compared_of_kept {id : String} (henabled : config.enabled = true)
    (h : validateDeviceApplied ⟨config, id⟩ (running env id (config.mapTexts (respell env))) =
      .ok ()) : Compared env config := by
  intro family hstatic
  obtain ⟨-, happlied⟩ := (validateDeviceApplied_iff henabled).mp h
  obtain ⟨haddress, hgateway, -⟩ := happlied family
  have hprinted {text : Option String} (hsame : text = text.map (respell env family))
      (htexts : ∀ t ∈ text, t ∈ (config.family family).texts) :
      ∀ t ∈ text, Printed env family t := by
    intro t ht
    rw [Option.mem_def.mp ht, Option.map_some, Option.some.injEq] at hsame
    exact hsame ▸ printed_respell (parse_isSome hvalid (htexts t ht))
  constructor
  · refine hprinted ?_ fun t ht => by simp [FamilyConfig.texts, Option.mem_def.mp ht]
    rw [validateFamilyAddresses, check_eq_ok_iff] at haddress
    unfold familyApplied at haddress
    simp only [filter_running, family_mapTexts, runningAddresses, FamilyConfig.map, hstatic]
      at haddress
    cases htext : (config.family family).address with
    | none => rfl
    | some text =>
        rw [htext] at haddress
        simp only [Option.map_some, Option.toList_some, List.map_cons, List.map_nil, List.any_cons,
          List.any_nil, Bool.or_false, Bool.and_eq_true, decide_eq_true_eq] at haddress
        exact haddress.1.symm
  · intro hdefault
    refine hprinted ?_ fun t ht => by simp [FamilyConfig.texts, Option.mem_def.mp ht]
    have hrunning : (running env id (config.mapTexts (respell env))).gateway family =
        (config.family family).gateway.map (respell env family) := by
      cases family <;> rfl
    rw [validateStaticGateway, check_eq_ok_iff, hrunning] at hgateway
    simpa [hstatic, hdefault] using hgateway

end Valid

/-- Of an enabled device a profile is asked for the same texts. -/
theorem desiredIsApplied_enabled {config : EthernetConfig String} {id : String}
    (henabled : config.enabled = true) (device : RuntimeDevice) (active : Option ProfileConfig) :
    desiredIsApplied ⟨config, id⟩ device active = true ↔ device.connectionId = some id ∧
      ∃ profile, active = some profile ∧ profile.supported = true ∧
        profile.autoconnectPriority = managedAutoconnectPriority ∧ profile.config = config := by
  cases active <;> simp [desiredIsApplied, henabled, and_assoc]

namespace SpellingFree

variable {id : String} {pair : Respelling env}

theorem printed_iff (h : SpellingFree env id pair) (henabled : pair.first.enabled = true) :
    AllPrinted env pair.first ↔ AllPrinted env pair.second := by
  have henabled' : pair.second.enabled = true :=
    (congrArg EthernetConfig.enabled pair.same).symm.trans henabled
  -- the profile has the settings in the spelling of NetworkManager
  have hreported := reported_running pair.firstValid id
  have happlied := h.applied (running env id (pair.first.mapTexts (respell env)))
    (some ⟨pair.first.mapTexts (respell env), true, managedAutoconnectPriority⟩)
    ⟨hreported.addresses, hreported.gateways, by
      rintro profile ⟨⟩
      exact allPrinted_respell pair.firstValid⟩
  rw [Bool.eq_iff_iff, desiredIsApplied_enabled henabled,
    desiredIsApplied_enabled henabled'] at happlied
  rw [allPrinted_iff pair.firstValid, allPrinted_iff pair.secondValid, ← pair.respell_eq]
  simpa [running] using happlied

theorem compared (h : SpellingFree env id pair) (henabled : pair.first.enabled = true) :
    Compared env pair.first ∧ Compared env pair.second := by
  have hkept {config : EthernetConfig String} (hconfig : config = pair.first ∨ config = pair.second)
      (hvalid : validateConfig env config = .ok ()) (henabled : config.enabled = true) :
      Compared env config := by
    refine compared_of_kept hvalid henabled
      (h.kept _ (reported_running hvalid id) config hconfig (running_applied henabled ?_))
    intro family hstatic
    rw [family_mapTexts] at hstatic ⊢
    have haddress := (validateFamily_texts (validateConfig_family hvalid family)).2 hstatic
    simpa [FamilyConfig.map] using haddress
  exact ⟨hkept (.inl rfl) pair.firstValid henabled, hkept (.inr rfl) pair.secondValid
    ((congrArg EthernetConfig.enabled pair.same).symm.trans henabled)⟩

end SpellingFree

/-- Settings of a disabled device are not looked at. -/
theorem validateDeviceApplied_disabled (left right : EthernetConfig String) {id : String}
    (hleft : left.enabled = false) (hright : right.enabled = false) (device : RuntimeDevice) :
    validateDeviceApplied ⟨left, id⟩ device = validateDeviceApplied ⟨right, id⟩ device := by
  simp [validateDeviceApplied, hleft, hright]

theorem spellingFree_of_disabled {id : String} {pair : Respelling env}
    (hfirst : pair.first.enabled = false) (hsecond : pair.second.enabled = false) :
    SpellingFree env id pair where
  applied device active _ := by
    simp [desiredIsApplied, hfirst, hsecond,
      validateDeviceApplied_disabled _ _ hfirst hsecond device]
  validated device _ := validateDeviceApplied_disabled _ _ hfirst hsecond device
  kept device _ config hconfig hkept := by
    have hdisabled : config.enabled = false := by
      obtain rfl | rfl := hconfig <;> assumption
    exact (validateDeviceApplied_disabled _ (config.mapTexts _) hdisabled hdisabled device).trans
      hkept

theorem spellingFree_of_compared {id : String} {pair : Respelling env}
    (hfirst : pair.first.enabled = true) (hsecond : pair.second.enabled = true)
    (hprinted : AllPrinted env pair.first ↔ AllPrinted env pair.second)
    (hcompared : Compared env pair.first) (hcompared' : Compared env pair.second) :
    SpellingFree env id pair where
  applied device active hreported := by
    have hfound {config : EthernetConfig String} (henabled : config.enabled = true)
        (h : desiredIsApplied ⟨config, id⟩ device active = true) : AllPrinted env config := by
      obtain ⟨-, profile, hactive, -, -, rfl⟩ := (desiredIsApplied_enabled henabled ..).mp h
      exact hreported.profile profile hactive
    by_cases hall : AllPrinted env pair.first
    · -- both are spelled as NetworkManager spells them
      have heq : pair.first = pair.second := by
        rw [← (allPrinted_iff pair.firstValid).mp hall,
          ← (allPrinted_iff pair.secondValid).mp (hprinted.mp hall), pair.respell_eq]
      rw [heq]
    · rw [Bool.eq_false_iff.mpr (mt (hfound hfirst) hall),
        Bool.eq_false_iff.mpr (mt (hfound hsecond) (mt hprinted.mpr hall))]
  validated device _ := by
    rw [hcompared.validate_eq, hcompared'.validate_eq, pair.respell_eq]
  kept device _ config hconfig hkept := by
    obtain rfl | rfl := hconfig
    · rwa [hcompared.validate_eq]
    · rwa [hcompared'.validate_eq]

theorem spelling_free_iff (env : Env) (id : String) (pair : Respelling env) :
    SpellingFree env id pair ↔ pair.first.enabled = false ∨
      (AllPrinted env pair.first ↔ AllPrinted env pair.second) ∧
        Compared env pair.first ∧ Compared env pair.second := by
  have hsame : pair.second.enabled = pair.first.enabled :=
    (congrArg EthernetConfig.enabled pair.same).symm
  cases henabled : pair.first.enabled with
  | false =>
      exact ⟨fun _ => .inl rfl, fun _ => spellingFree_of_disabled henabled (hsame.trans henabled)⟩
  | true =>
      refine ⟨fun h => .inr ⟨h.printed_iff henabled, h.compared henabled⟩, ?_⟩
      rintro (hdisabled | ⟨hprinted, hfirst, hsecond⟩)
      · cases hdisabled
      · exact spellingFree_of_compared henabled (hsame.trans henabled) hprinted hfirst hsecond

/-- One address that is parsed in two spellings. -/
def oneAddress : Env where
  Addr := Unit
  parse _ text := if text ∈ ["2001:db8::5", "2001:DB8::5"] then some () else none
  print _ _ := "2001:db8::5"
  unspecified _ := ()
  parse_print _ _ := rfl

def oneAddressConfig (address : String) : EthernetConfig String where
  enabled := true
  ipv4 := ⟨.disabled, none, none, none, .automatic, [], false, 100⟩
  ipv6 := ⟨.static, some address, some 64, none, .automatic, [], false, 100⟩

/-- With capital letters the address is in force and the settings are rolled back. -/
theorem capital_letters_not_applied :
    ∃ env id, ∃ pair : Respelling env, ¬ SpellingFree env id pair := by
  refine ⟨oneAddress, "p", ⟨oneAddressConfig "2001:DB8::5", oneAddressConfig "2001:db8::5",
    rfl, rfl, rfl⟩, fun h => ?_⟩
  obtain ⟨addr, haddr⟩ := ((h.compared rfl).1 .v6 rfl).1 "2001:DB8::5" rfl
  exact absurd (show "2001:db8::5" = "2001:DB8::5" from haddr) (by decide)

end Zos.Hostd.EthernetValidation
