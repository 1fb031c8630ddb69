import Quorum.JudgePages

/-! The addresses that the fetch of cited pages accepts (`source_fetcher`): what an address names,
where it is refused before anything is asked, and which of the resolver's answers may be dialled. -/

namespace Quorum

/-! ### Resolved addresses -/

/-- What `ipaddress.ip_address` reads. -/
inductive IpAddress
  | v4 (bits : BitVec 32)
  | v6 (bits : BitVec 128)
deriving DecidableEq

/-- `ipv4_mapped`. -/
def ipv4Mapped (bits : BitVec 128) : Option (BitVec 32) :=
  if bits.toNat >>> 32 = 0xffff then some (bits.truncate 32) else none

/-- `_NAT64_NETWORKS`: `64:ff9b::/96` and `64:ff9b:1::/48`. -/
def inNat64 (bits : BitVec 128) : Bool :=
  bits.toNat >>> 32 = 0x0064ff9b0000000000000000 ∨ bits.toNat >>> 80 = 0x0064ff9b0001

/-- `is_site_local`, the block `fec0::/10`. -/
def isSiteLocal (bits : BitVec 128) : Bool := bits.toNat >>> 118 = 0x3fb

/-- The address that a mapped one stands for. -/
def IpAddress.reached : IpAddress → IpAddress
  | .v4 bits => .v4 bits
  | .v6 bits => (ipv4Mapped bits).elim (.v6 bits) .v4

/-- In a block that leads to an address of someone's choosing, or to an internal network. -/
def IpAddress.leadsInside : IpAddress → Bool
  | .v4 _ => false
  | .v6 bits => inNat64 bits || isSiteLocal bits

/-- A part of a page, as `HTMLParser` reports it. -/
inductive HtmlEvent
  | startTag (tag : Text)
  | endTag (tag : Text)
  | data (text : Text)

/-- What the fetch leaves to the standard library: the reading of addresses and the registries
behind it, whether `urlsplit` takes a netloc, `str.isdigit` with `int`, the charset that a header's
parameters name, the decoders, and the events of `HTMLParser`. -/
structure FetchTables extends PageTables where
  ipAddress : Text → Option IpAddress
  isGlobal : IpAddress → Bool
  isMulticast : IpAddress → Bool
  isReserved : IpAddress → Bool
  netlocOk : Text → Bool
  isdigit : Text → Bool
  int : Text → Option ℕ
  charsetOf : Text → Option Text
  decode : Text → List UInt8 → Option Text
  decodeUtf8 : List UInt8 → Text
  htmlEvents : Text → List HtmlEvent

/-! ### What an address names -/

/-- `_hostinfo`: the host as it is written, and the port where one is. -/
def hostInfo (netloc : Text) : Text × Option Text :=
  let hostinfo := (netloc.reverse.takeWhile (· ≠ '@')).reverse
  let parts :=
    if '[' ∈ hostinfo then
      let bracketed := (hostinfo.dropWhile (· ≠ '[')).drop 1
      (bracketed.takeWhile (· ≠ ']'), ((bracketed.dropWhile (· ≠ ']')).dropWhile (· ≠ ':')).drop 1)
    else (hostinfo.takeWhile (· ≠ ':'), (hostinfo.dropWhile (· ≠ ':')).drop 1)
  (parts.1, if parts.2 = [] then none else some parts.2)

/-- `port`, none where it raises. -/
def portOf (netloc : Text) : Option (Option ℕ) :=
  match (hostInfo netloc).2 with
  | none => some none
  | some digits =>
      let port := digits.foldl (fun value ch => 10 * value + (ch.toNat - '0'.toNat)) 0
      if digits.all Char.isDigit ∧ port ≤ 65535 then some (some port) else none

def defaultPort (secure : Bool) : ℕ := if secure then 443 else 80

/-- What the fetch requests of an accepted address. -/
structure PageTarget where
  secure : Bool
  origin : Text
  host : Text
  port : ℕ
  path : Text
deriving DecidableEq

namespace FetchTables

variable (t : FetchTables)

def isPublicUnicast (ip : IpAddress) : Bool :=
  t.isGlobal ip && !t.isMulticast ip && !t.isReserved ip

/-- `_address_is_allowed`. -/
def addressIsAllowed (address : Text) : Bool :=
  match t.ipAddress (address.takeWhile (· ≠ '%')) with
  | none => false
  | some (.v4 bits) => t.isPublicUnicast (.v4 bits)
  | some (.v6 bits) =>
      match ipv4Mapped bits with
      | some mapped => t.isPublicUnicast (.v4 mapped)
      | none => if inNat64 bits || isSiteLocal bits then false else t.isPublicUnicast (.v6 bits)

/-- An allowed address is one that arrives at a public unicast address, and not in a block that
leads inside. -/
theorem addressIsAllowed_iff (address : Text) :
    t.addressIsAllowed address = true ↔ ∃ ip, t.ipAddress (address.takeWhile (· ≠ '%')) = some ip ∧
      ip.reached.leadsInside = false ∧ t.isPublicUnicast ip.reached = true := by
  rw [addressIsAllowed]
  cases hip : t.ipAddress (address.takeWhile (· ≠ '%')) with
  | none => simp
  | some ip =>
      cases ip with
      | v4 bits => simp [IpAddress.reached, IpAddress.leadsInside]
      | v6 bits =>
          cases hmapped : ipv4Mapped bits with
          | some mapped => simp [IpAddress.reached, IpAddress.leadsInside, hmapped]
          | none =>
              cases hinside : inNat64 bits || isSiteLocal bits with
              | true => simp [IpAddress.reached, IpAddress.leadsInside, hmapped, hinside]
              | false => simp [IpAddress.reached, IpAddress.leadsInside, hmapped, hinside]

/-- `hostname`: in lower case up to a zone. -/
def hostname (netloc : Text) : Option Text :=
  let host := (hostInfo netloc).1
  if host = [] then none else some (t.lower (host.takeWhile (· ≠ '%')) ++ host.dropWhile (· ≠ '%'))

/-- The checks of `_fetch_one` before it asks anything: what is requested of the address, or the
outcome that refuses it. A user or a password stands before an at sign. -/
def acceptUrl (url : Text) : Except FetchOutcome PageTarget :=
  let parts := urlsplit url
  if !noneForbidden url then .error .refusedScheme
  else if !t.netlocOk parts.netloc then .error .refusedScheme
  else
    match portOf parts.netloc with
    | none => .error .refusedScheme
    | some port =>
        if parts.scheme ≠ "http".toList ∧ parts.scheme ≠ "https".toList then .error .refusedScheme
        else
          match t.hostname parts.netloc with
          | none => .error .refusedHost
          | some host =>
              if host = [] ∨ '@' ∈ parts.netloc then .error .refusedHost
              else
                let secure : Bool := parts.scheme = "https".toList
                .ok
                  { secure
                    origin := parts.scheme ++ "://".toList ++ t.lower parts.netloc
                    host
                    port := (port.filter (· ≠ 0)).getD (defaultPort secure)
                    path := requestPath parts }

/-- What is known of an address that the fetch accepts. -/
structure Accepted (url : Text) (target : PageTarget) : Prop where
  plain : noneForbidden url = true
  scheme : (urlsplit url).scheme = if target.secure then "https".toList else "http".toList
  anonymous : '@' ∉ (urlsplit url).netloc
  host : target.host ≠ []
  path : target.path = requestPath (urlsplit url)
  origin : target.origin = (urlsplit url).scheme ++ "://".toList ++ t.lower (urlsplit url).netloc

theorem accepted_of_acceptUrl {url : Text} {target : PageTarget}
    (h : t.acceptUrl url = .ok target) :
    t.Accepted url target := by
  unfold acceptUrl at h
  dsimp only at h
  cases hplain : noneForbidden url with
  | false => simp [hplain] at h
  | true =>
      cases hnetloc : t.netlocOk (urlsplit url).netloc with
      | false => simp [hplain, hnetloc] at h
      | true =>
          simp only [hplain, hnetloc, Bool.not_true, Bool.false_eq_true, if_false] at h
          cases hport : portOf (urlsplit url).netloc with
          | none => simp [hport] at h
          | some port =>
              simp only [hport] at h
              by_cases hscheme : (urlsplit url).scheme ≠ "http".toList ∧
                (urlsplit url).scheme ≠ "https".toList
              · rw [if_pos hscheme] at h
                cases h
              · rw [if_neg hscheme] at h
                cases hhost : t.hostname (urlsplit url).netloc with
                | none => simp [hhost] at h
                | some host =>
                    simp only [hhost] at h
                    by_cases hrefused : host = [] ∨ '@' ∈ (urlsplit url).netloc
                    · rw [if_pos hrefused] at h
                      cases h
                    · rw [if_neg hrefused] at h
                      cases h
                      obtain ⟨hname, hanonymous⟩ := not_or.mp hrefused
                      refine ⟨hplain, ?_, hanonymous, hname, rfl, rfl⟩
                      by_cases hsecure : (urlsplit url).scheme = "https".toList
                      · rw [if_pos (decide_eq_true hsecure), hsecure]
                      · rw [if_neg (by simpa using hsecure)]
                        by_contra hhttp
                        exact hscheme ⟨hhttp, hsecure⟩

theorem acceptUrl_refuses {url : Text} {outcome : FetchOutcome}
    (h : t.acceptUrl url = .error outcome) :
    outcome = .refusedScheme ∨ outcome = .refusedHost := by
  unfold acceptUrl at h
  dsimp only at h
  by_cases hplain : (!noneForbidden url) = true
  · rw [if_pos hplain] at h
    exact .inl (Except.error.inj h).symm
  rw [if_neg hplain] at h
  by_cases hnetloc : (!t.netlocOk (urlsplit url).netloc) = true
  · rw [if_pos hnetloc] at h
    exact .inl (Except.error.inj h).symm
  rw [if_neg hnetloc] at h
  cases hport : portOf (urlsplit url).netloc with
  | none =>
      rw [hport] at h
      exact .inl (Except.error.inj h).symm
  | some port =>
      simp only [hport] at h
      by_cases hscheme : (urlsplit url).scheme ≠ "http".toList ∧
        (urlsplit url).scheme ≠ "https".toList
      · rw [if_pos hscheme] at h
        exact .inl (Except.error.inj h).symm
      rw [if_neg hscheme] at h
      cases hhost : t.hostname (urlsplit url).netloc with
      | none =>
          rw [hhost] at h
          exact .inr (Except.error.inj h).symm
      | some host =>
          simp only [hhost] at h
          split_ifs at h
          exact .inr (Except.error.inj h).symm

end FetchTables

end Quorum
