import Zos.Downloader.Db

/-!
# Requests of the downloader

`get` of `apps/downloader/src/network.rs` sends a request, follows redirects by hand and checks
each hop. The URL parser, the name lookups and the servers are not modelled: what they answer at
each hop is given. The visits of a call are the URLs it gets to, with the addresses that the HTTP
client is made to connect to (their order, which the code sorts, does not matter).
-/

namespace Zos.Downloader.Network

open Zos.Downloader (ErrorCode)

/-! ## Addresses -/

abbrev Ipv4Addr := BitVec 32

abbrev Ipv6Addr := BitVec 128

inductive IpAddr where
  | v4 (address : Ipv4Addr)
  | v6 (address : Ipv6Addr)
  deriving DecidableEq

def denied : List (Ipv4Addr × Ipv4Addr) :=
  [(0x00000000, 0x00ffffff), (0x0a000000, 0x0affffff), (0x64400000, 0x647fffff),
    (0x7f000000, 0x7fffffff), (0xa9fe0000, 0xa9feffff), (0xac100000, 0xac1fffff),
    (0xc0000000, 0xc00000ff), (0xc0000200, 0xc00002ff), (0xc0a80000, 0xc0a8ffff),
    (0xc6120000, 0xc613ffff), (0xc6336400, 0xc63364ff), (0xcb007100, 0xcb0071ff),
    (0xe0000000, 0xffffffff)]

def isPublicIpv4 (value : Ipv4Addr) : Bool :=
  !denied.any fun (start, stop) => value ≥ start ∧ value ≤ stop

def inPrefix (value network : Ipv6Addr) (bits : Nat) : Bool :=
  let mask := if bits = 0 then 0 else BitVec.allOnes 128 <<< (128 - bits)
  value &&& mask = network &&& mask

/-- The address whose first two groups are given. -/
def groups (first second : BitVec 16) : Ipv6Addr := first ++ second ++ (0 : BitVec 96)

def isPublicIpv6 (value : Ipv6Addr) : Bool :=
  inPrefix value (groups 0x2000 0) 3 && !inPrefix value (groups 0x2001 0x0002) 48 &&
    !inPrefix value (groups 0x2001 0x0010) 28 && !inPrefix value (groups 0x2001 0x0db8) 32 &&
    !inPrefix value (groups 0x3fff 0) 20

def isPublicIp : IpAddr → Bool
  | .v4 address => isPublicIpv4 address
  | .v6 address => isPublicIpv6 address

/-! ## URLs -/

inductive Host where
  | domain (name : String)
  | ipv4 (address : Ipv4Addr)
  | ipv6 (address : Ipv6Addr)
  deriving DecidableEq

structure Url where
  scheme : String
  username : String
  password : Option String
  host : Option Host

def validateUrl (url : Url) : Except ErrorCode Unit :=
  if url.scheme ≠ "http" ∧ url.scheme ≠ "https" then .error .redirectPolicy
  else if url.username ≠ "" ∨ url.password.isSome then .error .redirectPolicy
  else if url.host.isNone then .error .redirectPolicy
  else .ok ()

def redirectSchemeAllowed (originalScheme nextScheme : String) : Bool :=
  originalScheme ≠ "https" || nextScheme = "https"

/-! ## One request -/

inductive Reply where
  | failed (code : ErrorCode)
  | redirect (location : Option String)
  | status (code : Nat)

/-- What a name lookup and the server answer at one hop. -/
structure Hop where
  lookup : Except ErrorCode (List IpAddr)
  reply : Reply

/-- `host_str` writes an IPv6 address in brackets, and `parse::<IpAddr>` does not take them:
the name is looked up, which gives nothing. -/
def addresses (hop : Hop) : Option Host → Except ErrorCode (List IpAddr)
  | some (.ipv4 address) => .ok [.v4 address]
  | some (.domain _) => hop.lookup
  | some (.ipv6 _) | none => .ok []

def resolvePublicAddresses (hop : Hop) (host : Option Host) : Except ErrorCode (List IpAddr) :=
  match addresses hop host with
  | .error code => .error code
  | .ok addresses =>
      match addresses.filter isPublicIp with
      | [] => .error .ssrfBlocked
      | first :: rest => .ok (first :: rest)

structure Visit where
  url : Url
  hop : Hop
  contacted : List IpAddr

/-! ## Redirects -/

def maxRedirects : Nat := 5

def isRetryableStatus (status : Nat) : Bool := status ∈ [408, 425, 429, 500, 502, 503, 504]

section Get

variable (parse : String → Option Url) (join : Url → String → Option Url)

def nextUrl (url : Url) (location : Option String) : Except ErrorCode Url := do
  let next ← (location.bind (join url)).elim (.error .redirectPolicy) .ok
  validateUrl next
  if redirectSchemeAllowed url.scheme next.scheme then .ok next else .error .redirectPolicy

/-- The loop of `get` with so many redirects left. -/
def follow (world : Nat → Hop) (url : Url) (left : Nat) : List Visit × Except ErrorCode Url :=
  match resolvePublicAddresses (world left) url.host, (world left).reply, left with
  | .error code, _, _ => ([⟨url, world left, []⟩], .error code)
  | .ok contacted, .failed code, _ => ([⟨url, world left, contacted⟩], .error code)
  | .ok contacted, .status status, _ =>
      ([⟨url, world left, contacted⟩],
        if isRetryableStatus status then .error .httpStatus else .ok url)
  | .ok contacted, .redirect _, 0 => ([⟨url, world left, contacted⟩], .error .redirectPolicy)
  | .ok contacted, .redirect location, rest + 1 =>
      match nextUrl join url location with
      | .error code => ([⟨url, world left, contacted⟩], .error code)
      | .ok next =>
          let (visits, result) := follow world next rest
          (⟨url, world left, contacted⟩ :: visits, result)

def parseUrl (raw : String) : Except ErrorCode Url := do
  let url ← (parse raw).elim (.error .redirectPolicy) .ok
  validateUrl url
  .ok url

def get (world : Nat → Hop) (rawUrl : String) : List Visit × Except ErrorCode Url :=
  match parseUrl parse rawUrl with
  | .error code => ([], .error code)
  | .ok url => follow join world url maxRedirects

end Get

end Zos.Downloader.Network
