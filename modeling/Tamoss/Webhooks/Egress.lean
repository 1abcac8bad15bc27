/-
  **Where webhook deliveries may connect to.**

  The egress part of `application/webhooks.py`: the validation of a webhook URL, the HTTP
  session with its validated connections, and a delivery.
-/
import Tamoss.Lib.Workers

namespace Tamoss.Webhooks

open Lib Lib.Account
open Machine (Always)

/-! ## Packages and policies -/

structure EgressPolicy where
  allowPrivateTargets : Bool := false
  allowedHosts : List String := []
deriving DecidableEq

/-- The properties of an address in `ipaddress`. -/
structure AddressInfo where
  isLoopback : Bool
  isLinkLocal : Bool
  isPrivate : Bool
  isMulticast : Bool
  isReserved : Bool
  isUnspecified : Bool
deriving DecidableEq

/-- `ParseResult`; reading the port may raise `ValueError`. -/
structure ParsedUrl where
  scheme : String
  hostname : Option String
  username : Option String
  password : Option String
  port : Option (Option Nat)
deriving DecidableEq

structure Packages where
  Address : Type
  [addressEq : DecidableEq Address]
  /-- `ipaddress.ip_address(text)`, `none` for a `ValueError` -/
  ipAddress : String → Option Address
  text : Address → String
  info : Address → AddressInfo
  /-- `address in ip_network(text, strict=False)`, `none` for a `ValueError` -/
  inNetwork : Address → String → Option Bool
  /-- `text.strip()` and `text.lower()` -/
  strip : String → String
  lower : String → String
  /-- `urlparse(url)`, `none` for a `ValueError` -/
  urlparse : String → Option ParsedUrl
  urljoin : String → String → String
  /-- the host that `requests` connects to for a URL, and the port -/
  requestTarget : String → String × Nat

attribute [instance] Packages.addressEq

def Packages.Lawful (pk : Packages) : Prop := ∀ address, pk.ipAddress (pk.text address) = some address

/-- The exceptions of the code and of the connection. -/
inductive EgressError where
  | valueError (message : String)
  | webhookEgressError (message : String)
  | nameResolutionError
  | newConnectionError
  | connectTimeoutError
  | other
deriving DecidableEq

variable (pk : Packages)

def endsWith (text suffix : String) : Bool := suffix.toList <:+ text.toList

def normalizedHostname (hostname : String) : String :=
  String.ofList ((pk.lower (pk.strip hostname)).toList.reverse.dropWhile (· = '.')).reverse

def isKubernetesServiceName (hostname : String) : Bool :=
  hostname = "localhost" || endsWith hostname ".svc" || endsWith hostname ".svc.cluster.local" ||
    endsWith hostname ".cluster.local"

def metadataHostnames : List String := ["metadata", "metadata.google.internal"]

def cloudMetadataIps : List pk.Address :=
  ["169.254.169.254", "100.100.100.200"].filterMap pk.ipAddress

def blockedIp (address : pk.Address) : Bool :=
  address ∈ cloudMetadataIps pk || (pk.info address).isLoopback ||
    (pk.info address).isLinkLocal || (pk.info address).isPrivate ||
    (pk.info address).isMulticast || (pk.info address).isReserved ||
    (pk.info address).isUnspecified

def itemAllows (hostname : String) (hostIp : Option pk.Address) (item : String) : Bool :=
  if item = "" then false
  else if item = "*" || item = hostname then true
  else if ".".toList <+: item.toList && endsWith hostname item then true
  else
    match hostIp with
    | none => false
    | some ip =>
        if '/' ∈ item.toList then (pk.inNetwork ip item).getD false
        else pk.ipAddress item = some ip

def hostAllowed (hostname : String) (allowedHosts : List String) : Bool :=
  allowedHosts.any fun raw =>
    itemAllows pk hostname (pk.ipAddress hostname) (normalizedHostname pk raw)

def validateResolvedAddresses (hostname : String) (addresses : List pk.Address)
    (policy : EgressPolicy) : Except EgressError Unit :=
  if policy.allowPrivateTargets || hostAllowed pk (normalizedHostname pk hostname)
      policy.allowedHosts then .ok ()
  else if addresses.any (blockedIp pk) then
    .error (.webhookEgressError "Webhook URL resolves to a restricted network destination")
  else .ok ()

/-! ## Calls -/

/-- `requests.Session`, as `_http_session` sets it up: whether it takes proxies from the
    environment, and the policy of its connection classes. -/
structure HttpSession where
  trustEnv : Bool
  policy : EgressPolicy
deriving DecidableEq

/-- A connection that the library needs: for which host, and through which proxy. -/
structure Hop where
  host : String
  port : Nat
  proxy : Option (String × Nat)
deriving DecidableEq

/-- `connection._dns_host` and `connection.port`: those of the proxy, if there is one -/
def Hop.peer (hop : Hop) : String × Nat := hop.proxy.getD (hop.host, hop.port)

/-- What becomes of a request: the connections it needs besides those of the pool, and the
    status and the `Location` header of the response. -/
structure Exchange where
  hops : List Hop
  response : Option (Nat × Option String)
deriving DecidableEq

/-- The socket that a connection is to open. -/
structure Connection where
  session : HttpSession
  url : String
  hop : Hop
  dnsHost : String
deriving DecidableEq

inductive ConnectResult where
  | socket
  | newConnectionError
  | connectTimeoutError
  | raised
deriving DecidableEq

inductive Call where
  | monotonic
  | cacheGet (hostname : String) (port : Nat)
  | cachePut (hostname : String) (port : Nat) (now : Int) (addresses : List pk.Address)
  /-- `socket.getaddrinfo`: the texts of the addresses, or `OSError` -/
  | getaddrinfo (hostname : String) (port : Nat)
  | request (session : HttpSession) (url : String) (allowRedirects : Bool)
  /-- `urllib3`'s `_new_conn`: looks `_dns_host` up and connects to what it finds -/
  | newConn (connection : Connection)

def Call.Resp : Call pk → Type
  | .monotonic => Int
  | .cacheGet _ _ => Option (Int × List pk.Address)
  | .cachePut .. => Unit
  | .getaddrinfo _ _ => Option (List String)
  | .request .. => Exchange
  | .newConn _ => ConnectResult

abbrev App := ExceptT EgressError (Prog (Call pk) (Call.Resp pk))

def call (c : Call pk) : App pk (c.Resp pk) := ExceptT.lift (Prog.perform c)

/-! ## The code -/

/-- The addresses of the answer of `getaddrinfo`, without repetition -/
def parseAddresses : List String → List pk.Address
  | [] => []
  | sockaddr :: rest =>
      match pk.ipAddress sockaddr with
      | none => parseAddresses rest
      | some address => address :: (parseAddresses rest).filter (· ≠ address)

def dnsCacheTtl : Int := 30000000

def resolveHostAddresses (hostname : String) (port : Nat) : App pk (List pk.Address) := do
  let now : Int ← call pk .monotonic
  let cached ← call pk (.cacheGet hostname port)
  let lookup : App pk (List pk.Address) := do
    match ← call pk (.getaddrinfo hostname port) with
    | none => pure []
    | some addressInfo => do
        let addresses := parseAddresses pk addressInfo
        call pk (.cachePut hostname port now addresses)
        pure addresses
  match cached with
  | none => lookup
  | some (stored, addresses) => if now - stored < dnsCacheTtl then pure addresses else lookup

/-- The loop of `_connect_validated` over the addresses -/
def dial (session : HttpSession) (url : String) (hop : Hop) :
    Option EgressError → List pk.Address → App pk Unit
  | lastError, [] => throw (lastError.getD .other)
  | _, address :: rest => do
      match ← call pk (.newConn ⟨session, url, hop, pk.text address⟩) with
      | .socket => pure ()
      | .newConnectionError => dial session url hop (some .newConnectionError) rest
      | .connectTimeoutError => dial session url hop (some .connectTimeoutError) rest
      | .raised => throw .other

def connectValidated (session : HttpSession) (url : String) (hop : Hop) : App pk Unit := do
  let (hostname, port) := hop.peer
  let addresses ← resolveHostAddresses pk hostname port
  validateResolvedAddresses pk hostname addresses session.policy
  if addresses.isEmpty then
    throw .nameResolutionError
  dial pk session url hop none addresses

def httpSession (policy : EgressPolicy) : HttpSession where
  trustEnv := false
  policy := policy

/-- `session.post`: every connection it opens is one of the session's connection classes -/
def post (session : HttpSession) (url : String) (allowRedirects : Bool) :
    App pk (Nat × Option String) := do
  let exchange ← call pk (.request session url allowRedirects)
  exchange.hops.forM fun hop => connectValidated pk session url hop
  match exchange.response with
  | none => throw .other
  | some response => pure response

def parseWebhookUrl (url : String) : Except EgressError ParsedUrl := do
  let some parsed := pk.urlparse url | throw (.valueError "Invalid URL")
  if parsed.scheme ∉ ["https", "http"] then
    throw (.valueError "Webhook URL must use http or https")
  if parsed.hostname.getD "" = "" then
    throw (.valueError "Webhook URL must include a hostname")
  if parsed.username.getD "" ≠ "" ∨ parsed.password.getD "" ≠ "" then
    throw (.valueError "Webhook URL must not include credentials")
  let some port := parsed.port | throw (.valueError "Webhook URL port is invalid")
  if port = some 0 ∨ ∃ p ∈ port, 65535 < p then
    throw (.valueError "Webhook URL port is invalid")
  return parsed

def validateWebhookTarget (parsed : ParsedUrl) (egressPolicy : Option EgressPolicy) :
    App pk Unit := do
  let policy := egressPolicy.getD {}
  let hostname := normalizedHostname pk (parsed.hostname.getD "")
  if hostAllowed pk hostname policy.allowedHosts then
    return
  if isKubernetesServiceName hostname || hostname ∈ metadataHostnames then
    throw (.webhookEgressError "Webhook URL targets a restricted network destination")
  if (pk.ipAddress hostname).any (blockedIp pk) then
    throw (.webhookEgressError "Webhook URL targets a restricted network destination")
  if policy.allowPrivateTargets then
    return
  let port := (parsed.port.getD none).getD (if parsed.scheme = "https" then 443 else 80)
  let addresses ← resolveHostAddresses pk hostname port
  validateResolvedAddresses pk hostname addresses policy

def validateWebhookUrl (url : String) (egressPolicy : Option EgressPolicy) : App pk Unit := do
  let parsed ← parseWebhookUrl pk url
  validateWebhookTarget pk parsed egressPolicy

def validateRedirectResponse (sourceUrl : String) (response : Nat × Option String)
    (egressPolicy : Option EgressPolicy) : App pk Unit := do
  if response.1 < 300 ∨ 400 ≤ response.1 then
    return
  match response.2 with
  | none => pure ()
  | some "" => pure ()
  | some location => validateWebhookUrl pk (pk.urljoin sourceUrl location) egressPolicy
  throw (.webhookEgressError "Webhook redirects are not allowed")

def sendWebhookDelivery (url : String) (egressPolicy : Option EgressPolicy) : App pk Nat := do
  validateWebhookUrl pk url egressPolicy
  let response ← post pk (httpSession (egressPolicy.getD {})) url false
  validateRedirectResponse pk url response egressPolicy
  return response.1

/-! ## The sender -/

structure Opened where
  connection : Connection
  sockaddr : String
deriving DecidableEq

structure World where
  dnsCache : List ((String × Nat) × (Int × List pk.Address))
  opened : List Opened

/-- The answers of the environment: the clock, the resolver, the library and the network. -/
structure Choice where
  now : Int
  lookup : Option (List String)
  exchange : Exchange
  sockaddrs : List String
  result : ConnectResult

def Exchange.documented (exchange : Exchange) (session : HttpSession) (url : String)
    (allowRedirects : Bool) : Bool :=
  exchange.hops.all fun hop =>
    (session.trustEnv || hop.proxy.isNone) &&
      (allowRedirects || (hop.host, hop.port) = pk.requestTarget url)

/-- What `getaddrinfo` answers for the text of an address: that address. -/
def literalLookup (dnsHost : String) (sockaddrs : List String) : Bool :=
  match pk.ipAddress dnsHost with
  | none => true
  | some address => sockaddrs.all fun sockaddr => pk.ipAddress sockaddr = some address

def perform (ch : Choice) : (c : Call pk) → World pk → Option (c.Resp pk × World pk)
  | .monotonic, w => some (ch.now, w)
  | .cacheGet hostname port, w =>
      some ((w.dnsCache.find? fun entry => entry.1 = (hostname, port)).map (·.2), w)
  | .cachePut hostname port now addresses, w =>
      let cache := if 1024 ≤ w.dnsCache.length then [] else
        w.dnsCache.filter fun entry => entry.1 ≠ (hostname, port)
      some ((), { w with dnsCache := cache ++ [((hostname, port), now, addresses)] })
  | .getaddrinfo _ _, w => some (ch.lookup, w)
  | .request session url allowRedirects, w =>
      if ch.exchange.documented pk session url allowRedirects then some (ch.exchange, w) else none
  | .newConn connection, w =>
      if literalLookup pk connection.dnsHost ch.sockaddrs then
        some (ch.result, { w with
          opened := w.opened ++ ch.sockaddrs.map fun sockaddr => ⟨connection, sockaddr⟩ })
      else none

/-- What clients and workers ask for: a delivery, or the check of a URL when a webhook is
    created or changed. -/
inductive Op where
  | sendWebhookDelivery (url : String) (egressPolicy : Option EgressPolicy)
  | validateWebhookUrl (url : String) (egressPolicy : Option EgressPolicy)
deriving DecidableEq

def operation : Op → App pk Unit
  | .sendWebhookDelivery url egressPolicy => discard (sendWebhookDelivery pk url egressPolicy)
  | .validateWebhookUrl url egressPolicy => validateWebhookUrl pk url egressPolicy

def sender : Service (Call pk) (Call.Resp pk) where
  Op := Op
  World := World pk
  Request := Unit
  Choice := Choice
  program op := (ExceptT.run (operation pk op)).bind fun _ => .pure ()
  claim _ := none
  perform := perform pk

instance : DecidableEq (sender pk).Request := inferInstanceAs (DecidableEq Unit)

/-! ## What a delivery has been told -/

abbrev Resolved := Option ((String × Nat) × List pk.Address)

def Connection.direct (connection : Connection) : Prop :=
  connection.hop.proxy = none ∧
    (connection.hop.host, connection.hop.port) = pk.requestTarget connection.url

def Connection.validated (connection : Connection) (resolved : Resolved pk) : Prop :=
  ∃ addresses, resolved = some (connection.hop.peer, addresses) ∧
    (∃ address ∈ addresses, connection.dnsHost = pk.text address) ∧
    validateResolvedAddresses pk connection.hop.peer.1 addresses connection.session.policy = .ok ()

/-- The URL and the policy of a delivery; the check of a URL opens no connection. -/
def Op.delivery : Op → Option (String × EgressPolicy)
  | .sendWebhookDelivery url egressPolicy => some (url, egressPolicy.getD {})
  | .validateWebhookUrl _ _ => none

def egressAccount (delivery : Option (String × EgressPolicy)) :
    Account (Call pk) (Call.Resp pk) (Resolved pk) where
  note
    | .monotonic, _, _ => none
    | .cacheGet hostname port, some (_, addresses), _ => some ((hostname, port), addresses)
    | .getaddrinfo hostname port, some addressInfo, _ =>
        some ((hostname, port), parseAddresses pk addressInfo)
    | .getaddrinfo hostname port, none, _ => some ((hostname, port), [])
    | _, _, resolved => resolved
  Req
    | .newConn connection, resolved =>
        delivery = some (connection.url, connection.session.policy) ∧
          connection.direct pk ∧ connection.validated pk resolved
    | _, _ => True
  Given
    | .request session url allowRedirects, exchange, _ =>
        Exchange.documented pk exchange session url allowRedirects = true
    | _, _, _ => True

section Walk

variable {pk} {delivery : Option (String × EgressPolicy)} {A : Resolved pk → Prop}
  {E : EgressError → Resolved pk → Prop}

theorem except_minds {α : Type} (x : Except EgressError α) :
    (egressAccount pk delivery).Minds A (liftM x : App pk α) (fun a _ => x = .ok a) Always :=
  Minds.except (fun _ ha _ _ => ha) fun _ _ _ _ => trivial

theorem resolveHostAddresses_minds (hostname : String) (port : Nat) :
    (egressAccount pk delivery).Minds A (resolveHostAddresses pk hostname port)
      (fun addresses m => m = some ((hostname, port), addresses)) E := by
  have hlookup : ∀ (now : Int) (A' : Resolved pk → Prop), (egressAccount pk delivery).Minds A' (do
      match ← call pk (.getaddrinfo hostname port) with
      | none => pure []
      | some addressInfo => do
          let addresses := parseAddresses pk addressInfo
          call pk (.cachePut hostname port now addresses)
          pure addresses)
      (fun addresses m => m = some ((hostname, port), addresses)) E := by
    intro now A'
    apply Minds.bind (Q := fun answer m =>
      m = some ((hostname, port), parseAddresses pk (Option.getD answer [])))
    · apply Minds.call
      · intro m _
        trivial
      · intro m answer _ _
        cases answer with
        | none => rfl
        | some addressInfo => rfl
    · intro answer
      cases answer with
      | none => exact Minds.pure fun m hm => hm
      | some addressInfo =>
        apply Minds.bind (Q := fun _ m =>
          m = some ((hostname, port), parseAddresses pk addressInfo))
        · exact Minds.call (fun _ _ => trivial) fun m _ hm _ => hm
        · intro _
          exact Minds.pure fun m hm => hm
  apply Minds.ask fun _ _ => trivial
  intro now
  apply Minds.bind (Q := fun cached m => ∀ stored addresses,
    cached = some (stored, addresses) → m = some ((hostname, port), addresses))
  · apply Minds.call
    · intro m _
      trivial
    · rintro m _ _ _ stored addresses rfl
      rfl
  · intro cached
    cases cached with
    | none => exact hlookup now _
    | some entry =>
      obtain ⟨stored, addresses⟩ := entry
      apply Minds.ite
      · intro _
        exact Minds.pure fun m hm => hm stored addresses rfl
      · intro _
        exact hlookup now _

variable {session : HttpSession} {url : String} {hop : Hop}

theorem dial_minds {addresses : List pk.Address} (hdelivery : delivery = some (url, session.policy))
    (hdirect : hop.proxy = none ∧ (hop.host, hop.port) = pk.requestTarget url)
    (hvalid : validateResolvedAddresses pk hop.peer.1 addresses session.policy = .ok ())
    (lastError : Option EgressError) {rest : List pk.Address} (hrest : rest ⊆ addresses) :
    (egressAccount pk delivery).Minds (fun m => m = some (hop.peer, addresses))
      (dial pk session url hop lastError rest) Always Always := by
  induction rest generalizing lastError with
  | nil => exact Minds.throw fun _ _ => trivial
  | cons address rest ih =>
    have haddress : address ∈ addresses := hrest List.mem_cons_self
    have hrest' : rest ⊆ addresses := fun a ha => hrest (List.mem_cons_of_mem address ha)
    apply Minds.bind (Q := fun _ m => m = some (hop.peer, addresses))
    · apply Minds.call
      · rintro m rfl
        exact ⟨hdelivery, hdirect, addresses, rfl, ⟨address, haddress, rfl⟩, hvalid⟩
      · intro m _ hm _
        exact hm
    · intro result
      cases result with
      | socket => exact Minds.pure fun _ _ => trivial
      | newConnectionError => exact ih _ hrest'
      | connectTimeoutError => exact ih _ hrest'
      | raised => exact Minds.throw fun _ _ => trivial

theorem connectValidated_minds (hdelivery : delivery = some (url, session.policy))
    (hdirect : hop.proxy = none ∧ (hop.host, hop.port) = pk.requestTarget url) :
    (egressAccount pk delivery).Minds A (connectValidated pk session url hop) Always Always := by
  apply Minds.bind (resolveHostAddresses_minds hop.peer.1 hop.peer.2)
  intro addresses
  apply Minds.bind (Q := fun _ m => m = some (hop.peer, addresses) ∧
    validateResolvedAddresses pk hop.peer.1 addresses session.policy = .ok ())
  · exact Minds.except (fun _ hok m hm => ⟨hm, hok⟩) fun _ _ _ _ => trivial
  · intro _
    apply Minds.throwIf fun _ _ => trivial
    intro _
    apply Minds.assume (fun _ hm => hm.2)
    intro hvalid
    exact (dial_minds hdelivery hdirect hvalid none fun _ ha => ha).pre fun _ hm => hm.1

theorem post_minds (policy : EgressPolicy) (url : String) :
    (egressAccount pk (some (url, policy))).Minds A (post pk (httpSession policy) url false) Always Always := by
  apply Minds.bind (Q := fun exchange _ =>
    Exchange.documented pk exchange (httpSession policy) url false = true)
  · exact Minds.call (fun _ _ => trivial) fun _ _ _ hgiven => hgiven
  · intro exchange
    apply Minds.assume (fun _ hm => hm)
    intro hdocumented
    apply Minds.bind (Q := Always)
    · apply Minds.pre (A := fun _ => True) _ fun _ _ => trivial
      apply Minds.forM
      intro hop hhop
      refine connectValidated_minds (by rfl) ?_
      have hhop := List.all_eq_true.mp hdocumented hop hhop
      simpa [httpSession] using hhop
    · intro _
      cases exchange.response with
      | none => exact Minds.throw fun _ _ => trivial
      | some response => exact Minds.pure fun _ _ => trivial

theorem validateWebhookUrl_minds (url : String) (egressPolicy : Option EgressPolicy) :
    (egressAccount pk delivery).Minds A (validateWebhookUrl pk url egressPolicy) Always Always := by
  apply Minds.bind (except_minds (parseWebhookUrl pk url))
  intro parsed
  unfold validateWebhookTarget
  dsimp only
  apply Minds.ite
  · intro _
    exact Minds.pure fun _ _ => trivial
  intro _
  apply Minds.throwIf fun _ _ => trivial
  intro _
  apply Minds.throwIf fun _ _ => trivial
  intro _
  apply Minds.ite
  · intro _
    exact Minds.pure fun _ _ => trivial
  intro _
  apply Minds.bind (resolveHostAddresses_minds _ _)
  intro addresses
  exact (except_minds _).post fun _ _ _ => trivial

theorem validateRedirectResponse_minds (sourceUrl : String) (response : Nat × Option String)
    (egressPolicy : Option EgressPolicy) :
    (egressAccount pk delivery).Minds A (validateRedirectResponse pk sourceUrl response egressPolicy)
      Always Always := by
  have hthrow : (egressAccount pk delivery).Minds (fun _ => True)
      (throw (.webhookEgressError "Webhook redirects are not allowed") : App pk Unit)
      Always Always := Minds.throw fun _ _ => trivial
  unfold validateRedirectResponse
  apply Minds.ite
  · intro _
    exact Minds.pure fun _ _ => trivial
  intro _
  split
  · exact hthrow.pre fun _ _ => trivial
  · exact hthrow.pre fun _ _ => trivial
  · exact (validateWebhookUrl_minds _ egressPolicy).bind fun _ => hthrow

theorem operation_minds (op : Op) :
    ((sender pk).program op).Minds (egressAccount pk op.delivery) Always none := by
  have hsend : ∀ url egressPolicy, (egressAccount pk (some (url, egressPolicy.getD {}))).Minds
      (fun _ => True) (sendWebhookDelivery pk url egressPolicy) Always Always := by
    intro url egressPolicy
    apply Minds.bind (validateWebhookUrl_minds url egressPolicy)
    intro _
    apply Minds.bind (post_minds _ url)
    intro response
    apply Minds.bind (validateRedirectResponse_minds url response egressPolicy)
    intro _
    exact Minds.pure fun _ _ => trivial
  apply Prog.Minds.bind
  apply Prog.Minds.mono (Q := Always) _ fun _ _ _ => trivial
  cases op with
  | sendWebhookDelivery url egressPolicy =>
    have hdiscard : (egressAccount pk (some (url, egressPolicy.getD {}))).Minds (fun _ => True)
        (discard (sendWebhookDelivery pk url egressPolicy)) Always
        Always := (hsend url egressPolicy).bind fun _ =>
      Minds.pure fun _ _ => trivial
    exact (hdiscard none trivial).mono fun _ _ _ => trivial
  | validateWebhookUrl url egressPolicy =>
    exact (validateWebhookUrl_minds (A := fun _ => True) url egressPolicy none trivial).mono
      fun _ _ _ => trivial

end Walk

/-! ## Confinement -/

def Opened.confined (opened : Opened) : Prop :=
  opened.connection.direct pk ∧
    (opened.connection.session.policy.allowPrivateTargets = false →
      hostAllowed pk (normalizedHostname pk opened.connection.hop.peer.1)
        opened.connection.session.policy.allowedHosts = false →
      ∃ address, pk.ipAddress opened.sockaddr = some address ∧ blockedIp pk address = false)

variable {pk}

theorem not_blocked_of_validated {hostname : String} {addresses : List pk.Address}
    {policy : EgressPolicy} (hprivate : policy.allowPrivateTargets = false)
    (hhost : hostAllowed pk (normalizedHostname pk hostname) policy.allowedHosts = false)
    (hvalid : validateResolvedAddresses pk hostname addresses policy = .ok ()) :
    ∀ address ∈ addresses, blockedIp pk address = false := by
  intro address haddress
  unfold validateResolvedAddresses at hvalid
  simp only [hprivate, hhost, Bool.or_self, Bool.false_eq_true, if_false] at hvalid
  split at hvalid
  · simp at hvalid
  · rename_i hnone
    simp only [List.any_eq_true, not_exists, not_and, Bool.not_eq_true] at hnone
    exact hnone address haddress

theorem confined_of_validated (hpk : pk.Lawful) {connection : Connection}
    {resolved : Resolved pk} (hdirect : connection.direct pk)
    (hvalidated : connection.validated pk resolved) {sockaddrs : List String}
    (hlookup : literalLookup pk connection.dnsHost sockaddrs = true) :
    ∀ sockaddr ∈ sockaddrs, Opened.confined pk ⟨connection, sockaddr⟩ := by
  intro sockaddr hsockaddr
  refine ⟨hdirect, ?_⟩
  intro hprivate hhost
  obtain ⟨addresses, -, ⟨address, haddress, hdns⟩, hvalid⟩ := hvalidated
  rw [literalLookup, hdns, hpk] at hlookup
  have hsame := List.all_eq_true.mp hlookup sockaddr hsockaddr
  refine ⟨address, by simpa using hsame, ?_⟩
  exact not_blocked_of_validated hprivate hhost hvalid address haddress

variable {w w' : World pk} {ch : Choice} {q : Call pk} {r : q.Resp pk}

theorem perform_opened (h : perform pk ch q w = some (r, w')) :
    w'.opened = w.opened ∨ ∃ connection, q = .newConn connection ∧
      literalLookup pk connection.dnsHost ch.sockaddrs = true ∧
      w'.opened = w.opened ++ ch.sockaddrs.map fun sockaddr => ⟨connection, sockaddr⟩ := by
  cases q with
  | newConn connection =>
    right
    simp only [perform] at h
    split at h
    · rename_i hlookup
      cases h
      exact ⟨connection, rfl, hlookup, rfl⟩
    · cases h
  | request session url allowRedirects =>
    left
    simp only [perform] at h
    split at h
    · cases h
      rfl
    · cases h
  | _ =>
    left
    cases h
    rfl

theorem perform_given (h : perform pk ch q w = some (r, w'))
    (delivery : Option (String × EgressPolicy)) (m : Resolved pk) :
    (egressAccount pk delivery).Given q r m := by
  cases q with
  | request session url allowRedirects =>
    simp only [perform] at h
    split at h
    · rename_i hdocumented
      cases h
      exact hdocumented
    · cases h
  | _ => trivial

theorem Op.delivery_eq {op : Op} {url : String} {policy : EgressPolicy}
    (h : op.delivery = some (url, policy)) :
    ∃ egressPolicy, op = .sendWebhookDelivery url egressPolicy ∧ egressPolicy.getD {} = policy := by
  cases op with
  | sendWebhookDelivery url' egressPolicy =>
    obtain ⟨rfl, hpolicy⟩ := Prod.mk.inj (Option.some.inj h)
    exact ⟨egressPolicy, rfl, hpolicy⟩
  | validateWebhookUrl => cases h

/-- What holds of a connection that a delivery opens: it is to the delivery's own URL, under the
    delivery's own policy or, if it has none, the default one. -/
def Connection.carries (connection : Connection) (url : String)
    (egressPolicy : Option EgressPolicy) : Prop :=
  connection.url = url ∧ connection.session.policy = egressPolicy.getD {}

variable {D : (sender pk).Conduct} {w₀ : World pk} {c : (sender pk).machine.Config}

/-- A thread that is about to open a connection runs a delivery, and the connection is of that
    delivery. -/
theorem newConn_of_delivery (hc : (sender pk).Reachable D w₀ c) {i : Nat}
    {l : List (Σ q, Call.Resp pk q)} {connection : Connection}
    {k : Call.Resp pk (.newConn connection) → Prog (Call pk) (Call.Resp pk) Unit}
    (hth : c.threads i = some ⟨l, .call (.newConn connection) k⟩) :
    ∃ url egressPolicy, D.starts (.sendWebhookDelivery url egressPolicy) ∧
      ((sender pk).program (.sendWebhookDelivery url egressPolicy)).Left l
        (.call (.newConn connection) k) ∧
      connection.carries url egressPolicy ∧ connection.direct pk ∧
      connection.validated pk
        ((egressAccount pk (some (url, egressPolicy.getD {}))).recall none l) := by
  obtain ⟨op, hop, hleft, ⟨hdelivery, hdirect, hvalidated⟩, -⟩ := Service.Reachable.minds
    (𝒜 := fun op : (sender pk).Op => egressAccount pk (Op.delivery op)) (fun op _ => operation_minds op)
    (fun op ch q w r w' m h => perform_given h (Op.delivery op) m) hc hth
  obtain ⟨egressPolicy, rfl, hpolicy⟩ := Op.delivery_eq hdelivery
  exact ⟨connection.url, egressPolicy, hop, hleft, ⟨rfl, hpolicy.symm⟩, hdirect, hvalidated⟩

theorem opened_of_delivery (hpk : pk.Lawful) (hw₀ : w₀.opened = [])
    (hc : (sender pk).Reachable D w₀ c) : ∀ opened ∈ c.shared.world.opened, opened.confined pk ∧
      ∃ url egressPolicy, D.starts (.sendWebhookDelivery url egressPolicy) ∧
        opened.connection.carries url egressPolicy := by
  induction hc with
  | init =>
    intro opened hopened
    change opened ∈ w₀.opened at hopened
    rw [hw₀] at hopened
    cases hopened
  | step a hc hstep hperm ih =>
    cases Machine.stepped hstep with
    | start => exact ih
    | leave => exact ih
    | call i ch l q k r s l' hth hex =>
      simp only [Service.machine] at hex
      split at hex
      · obtain ⟨answer, hanswer, heq⟩ := Option.map_eq_some_iff.mp hex
        cases heq
        intro opened hopened
        rcases perform_opened hanswer with hsame | ⟨connection, rfl, hlookup, hnew⟩
        · exact ih opened (hsame ▸ hopened)
        · dsimp only at hopened
          rw [hnew, List.mem_append] at hopened
          rcases hopened with hold | hnew
          · exact ih opened hold
          · obtain ⟨sockaddr, hsockaddr, rfl⟩ := List.mem_map.mp hnew
            obtain ⟨url, egressPolicy, hop, -, hcarries, hdirect, hvalidated⟩ :=
              newConn_of_delivery hc hth
            exact ⟨confined_of_validated hpk hdirect hvalidated hlookup sockaddr hsockaddr,
              url, egressPolicy, hop, hcarries⟩
      · cases hex

/-- **Webhook egress is confined.**  In every run of deliveries, whatever the resolver answers
    each time: every connection is opened by a delivery, to that delivery's URL and under its
    policy; it goes straight to the host of the URL, through no proxy and after no redirect; one
    that is about to be opened goes to an address resolved and validated in the same connect
    step; and if the policy allows neither private targets nor the host, no address connected to
    is blocked. -/
theorem webhook_egress_confined (pk : Packages) (hpk : pk.Lawful) (D : (sender pk).Conduct)
    (w₀ : World pk) (hw₀ : w₀.opened = []) (c : (sender pk).machine.Config)
    (hc : (sender pk).Reachable D w₀ c) :
    (∀ opened ∈ c.shared.world.opened, opened.confined pk ∧
      ∃ url egressPolicy, D.starts (.sendWebhookDelivery url egressPolicy) ∧
        opened.connection.carries url egressPolicy) ∧
    ∀ i l connection k, c.threads i = some ⟨l, .call (.newConn connection) k⟩ →
      ∃ url egressPolicy, D.starts (.sendWebhookDelivery url egressPolicy) ∧
        ((sender pk).program (.sendWebhookDelivery url egressPolicy)).Left l
          (.call (.newConn connection) k) ∧
        connection.carries url egressPolicy ∧ connection.direct pk ∧
        connection.validated pk
          ((egressAccount pk (some (url, egressPolicy.getD {}))).recall none l) :=
  ⟨opened_of_delivery hpk hw₀ hc, fun _ _ _ _ hth => newConn_of_delivery hc hth⟩

/-! ### A run -/

def twoAddresses : Packages where
  Address := Bool
  ipAddress text :=
    if text = "93.184.216.34" then some true else if text = "10.0.0.1" then some false else none
  text address := if address then "93.184.216.34" else "10.0.0.1"
  info address := ⟨false, false, !address, false, false, false⟩
  inNetwork _ _ := none
  strip text := text
  lower text := text
  urlparse _ := some ⟨"http", some "hook.example", none, none, some none⟩
  urljoin _ location := location
  requestTarget _ := ("hook.example", 80)

theorem twoAddresses_lawful : twoAddresses.Lawful := by
  intro address
  cases address <;> decide

def publicReceiver : Choice where
  now := 0
  lookup := some ["93.184.216.34"]
  exchange := ⟨[⟨"hook.example", 80, none⟩], some (200, none)⟩
  sockaddrs := ["93.184.216.34"]
  result := .socket

def deliveryRun : List (sender twoAddresses).machine.Action :=
  .start 0 (Op.sendWebhookDelivery "http://hook.example" none) ::
    List.replicate 8 (.call 0 publicReceiver)

def oneDelivery : (sender twoAddresses).Conduct where
  starts op := op = Op.sendWebhookDelivery "http://hook.example" none

instance : DecidablePred oneDelivery.starts :=
  fun op => instDecidableEqOp op (.sendWebhookDelivery "http://hook.example" none)

instance (q : Call twoAddresses) (r : q.Resp twoAddresses) (w : (sender twoAddresses).World) :
    Decidable (oneDelivery.calls q r w) := .isTrue trivial

theorem webhook_egress_confined_delivery :
    ∃ c, (sender twoAddresses).Reachable oneDelivery ⟨[], []⟩ c ∧
      c.shared.world.opened.map Opened.sockaddr = ["93.184.216.34"] ∧
      ∀ opened ∈ c.shared.world.opened, opened.confined twoAddresses ∧
        opened.connection.carries "http://hook.example" none := by
  obtain ⟨c, hc, hopened⟩ : ∃ c, (sender twoAddresses).Reachable oneDelivery ⟨[], []⟩ c ∧
      c.shared.world.opened.map Opened.sockaddr = ["93.184.216.34"] :=
    Service.Reachable.of_run deliveryRun (by decide +kernel)
  refine ⟨c, hc, hopened, fun opened hmem => ?_⟩
  obtain ⟨hconfined, url, egressPolicy, hop, hcarries⟩ :=
    (webhook_egress_confined twoAddresses twoAddresses_lawful oneDelivery ⟨[], []⟩ rfl c hc).1
      opened hmem
  cases hop
  exact ⟨hconfined, hcarries⟩

end Tamoss.Webhooks
