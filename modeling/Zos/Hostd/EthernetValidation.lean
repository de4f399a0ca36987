import Zos.Hostd.Error

/-!
# Validation of Ethernet settings

`validate_config`, `desired_is_applied` and `validate_device_applied` of
`apps/hostd/src/network_manager/ethernet.rs`. The two address families have the same fields, and
an address is a text in the settings and in what `nmcli` prints. How the standard library parses
an address of a family and how NetworkManager prints it are parameters.
-/

namespace Zos.Hostd.EthernetValidation

inductive Family where
  | v4
  | v6
  deriving DecidableEq, Repr

def Family.name : Family → String
  | .v4 => "IPv4"
  | .v6 => "IPv6"

inductive Mode where
  | disabled
  | dhcp
  | automatic
  | static
  deriving DecidableEq, Repr

inductive DnsMode where
  | automatic
  | manual
  deriving DecidableEq, Repr

/-- `EthernetIpv4Config` and `EthernetIpv6Config`. -/
structure FamilyConfig (α : Type) where
  mode : Mode
  address : Option α
  prefixLength : Option Nat
  gateway : Option α
  dnsMode : DnsMode
  dns : List α
  useDefaultRoute : Bool
  routeMetric : Nat
  deriving DecidableEq, Repr

structure EthernetConfig (α : Type) where
  enabled : Bool
  ipv4 : FamilyConfig α
  ipv6 : FamilyConfig α
  deriving DecidableEq, Repr

def EthernetConfig.family {α : Type} (config : EthernetConfig α) : Family → FamilyConfig α
  | .v4 => config.ipv4
  | .v6 => config.ipv6

/-- Addresses as texts; what is printed is parsed back. -/
structure Env where
  Addr : Type
  parse : Family → String → Option Addr
  print : Family → Addr → String
  unspecified : Family → Addr
  parse_print : ∀ family addr, parse family (print family addr) = some addr

/-! ## Settings -/

def check (valid : Bool) (error : HostdError) : Except HostdError Unit :=
  if valid then .ok () else .error error

def matchesFamily (env : Env) (family : Family) (value : String) : Bool :=
  (env.parse family value).isSome

def validMode : Family → Mode → Bool
  | .v4, mode => mode ≠ .automatic
  | .v6, mode => mode ≠ .dhcp

def maxPrefix : Family → Nat
  | .v4 => 32
  | .v6 => 128

/-- The part of `validate_family` about address, prefix and gateway. -/
def validateStatic (env : Env) (family : Family) (config : FamilyConfig String) :
    Except HostdError Unit :=
  if config.mode = .static then do
    check (config.address.any (matchesFamily env family) &&
        config.prefixLength.any (· ≤ maxPrefix family))
      (.validation "Static Ethernet configuration requires a valid address and prefix")
    check (config.gateway.all (matchesFamily env family))
      (.validation "Static Ethernet gateway has the wrong address family")
    check (!(config.useDefaultRoute && config.gateway.isNone))
      (.validation "A static default route requires a gateway")
  else
    check (!(config.address.isSome || config.prefixLength.isSome || config.gateway.isSome))
      (.validation "Automatic or disabled Ethernet modes cannot include a static address")

def validateFamily (env : Env) (family : Family) (config : FamilyConfig String) :
    Except HostdError Unit := do
  check (validMode family config.mode && 1 ≤ config.routeMetric && config.routeMetric ≤ 65535 &&
      config.dns.length ≤ 3)
    (.validation "Invalid Ethernet address-family configuration")
  validateStatic env family config
  check (config.dns.all (matchesFamily env family) &&
      !(config.dnsMode = .automatic && !config.dns.isEmpty) &&
      !(config.dnsMode = .manual && config.dns.isEmpty))
    (.validation "Invalid Ethernet DNS configuration")

def validateConfig (env : Env) (config : EthernetConfig String) : Except HostdError Unit := do
  validateFamily env .v4 config.ipv4
  validateFamily env .v6 config.ipv6

/-! ## What NetworkManager reports -/

structure EthernetAddress where
  family : Family
  address : String
  prefixLength : Option Nat
  scope : Option String
  deriving DecidableEq, Repr

structure RuntimeDevice where
  connectionId : Option String
  addresses : List EthernetAddress
  ipv4Gateway : Option String
  ipv6Gateway : Option String
  ipv4DefaultRouteMetric : Option Nat
  ipv6DefaultRouteMetric : Option Nat
  deriving DecidableEq, Repr

def RuntimeDevice.gateway (device : RuntimeDevice) : Family → Option String
  | .v4 => device.ipv4Gateway
  | .v6 => device.ipv6Gateway

def RuntimeDevice.metric (device : RuntimeDevice) : Family → Option Nat
  | .v4 => device.ipv4DefaultRouteMetric
  | .v6 => device.ipv6DefaultRouteMetric

structure ProfileConfig where
  config : EthernetConfig String
  supported : Bool
  autoconnectPriority : Int
  deriving DecidableEq, Repr

structure DesiredDevice where
  config : EthernetConfig String
  managedProfileId : String
  deriving DecidableEq, Repr

/-! ## Comparing them -/

def familyApplied (family : Family) (config : FamilyConfig String)
    (addresses : List EthernetAddress) : Bool :=
  let familyAddresses := addresses.filter (·.family = family)
  match config.mode, family with
  | .disabled, _ => familyAddresses.isEmpty
  | .static, _ => familyAddresses.any fun address =>
      some address.address = config.address && address.prefixLength = config.prefixLength
  | _, .v6 => familyAddresses.any (·.scope ≠ some "link")
  | _, .v4 => !familyAddresses.isEmpty

def validateFamilyAddresses (family : Family) (config : FamilyConfig String)
    (addresses : List EthernetAddress) : Except HostdError Unit :=
  check (familyApplied family config addresses)
    (.operationFailed s!"Ethernet {family.name} address configuration did not apply")

def validateStaticGateway (family : Family) (config : FamilyConfig String)
    (active : Option String) : Except HostdError Unit :=
  check (!(config.mode = .static && config.useDefaultRoute && config.gateway ≠ active))
    (.operationFailed s!"Ethernet {family.name} gateway did not apply")

def validateDefaultRoute (family : Family) (config : FamilyConfig String)
    (activeMetric : Option Nat) : Except HostdError Unit :=
  match config.mode ≠ .disabled && config.useDefaultRoute, activeMetric with
  | true, some metric => check (metric = config.routeMetric)
      (.operationFailed s!"{family.name} default route metric did not apply")
  | true, none => .error (.operationFailed s!"{family.name} default route was not installed")
  | false, some _ => .error (.operationFailed s!"{family.name} default route was not removed")
  | false, none => .ok ()

def validateDeviceApplied (entry : DesiredDevice) (device : RuntimeDevice) :
    Except HostdError Unit := do
  if ¬ entry.config.enabled then
    let hasUsableAddress := device.addresses.any fun address =>
      address.family = .v4 || address.family = .v6 && address.scope ≠ some "link"
    check (device.connectionId = some entry.managedProfileId && !hasUsableAddress &&
        device.ipv4DefaultRouteMetric.isNone && device.ipv6DefaultRouteMetric.isNone)
      (.operationFailed "Disabled Ethernet device is not held by its managed profile")
  else
    check (device.connectionId = some entry.managedProfileId)
      (.operationFailed "Managed Ethernet profile did not activate")
    validateFamilyAddresses .v4 entry.config.ipv4 device.addresses
    validateFamilyAddresses .v6 entry.config.ipv6 device.addresses
    validateStaticGateway .v4 entry.config.ipv4 device.ipv4Gateway
    validateStaticGateway .v6 entry.config.ipv6 device.ipv6Gateway
    validateDefaultRoute .v4 entry.config.ipv4 device.ipv4DefaultRouteMetric
    validateDefaultRoute .v6 entry.config.ipv6 device.ipv6DefaultRouteMetric

def FamilyConfig.isBlocking {α : Type} (config : FamilyConfig α) : Bool :=
  config.mode = .disabled && config.address.isNone && config.gateway.isNone &&
    config.dnsMode = .automatic && config.dns.isEmpty && !config.useDefaultRoute

def isBlockingProfile (config : EthernetConfig String) : Bool :=
  config.enabled && config.ipv4.isBlocking && config.ipv6.isBlocking

def managedAutoconnectPriority : Int := 999

def desiredIsApplied (entry : DesiredDevice) (device : RuntimeDevice)
    (active : Option ProfileConfig) : Bool :=
  device.connectionId = some entry.managedProfileId &&
    active.any fun profile => profile.supported &&
      profile.autoconnectPriority = managedAutoconnectPriority &&
      if entry.config.enabled then profile.config = entry.config
      else isBlockingProfile profile.config && (validateDeviceApplied entry device).isOk

end Zos.Hostd.EthernetValidation
