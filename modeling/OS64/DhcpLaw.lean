import Mathlib.Tactic.IntervalCases
import OS64.NetTrip
/-!
# DhcpLaw — the DHCP exchange

A DISCOVER is sent like any other packet, so a host without routes sends none (`discover_never_sent`).  An ACK copies
the address of the last OFFER into the device, with the octets in the order of the host, and copies zeros if there was
no OFFER (`dhcp_assign_iff`).
-/
namespace OS64

open Function
namespace Net

/-! ## Runs -/

variable {env : NetEnv} {h : Host} {buf : NetBuf}

/-- What a client, by its place in the list, was offered last: the octets of `yiaddr` as they came. -/
abbrev Offers := Nat → Option Ipv4Addr

def noteOffer (h : Host) (buf : NetBuf) (offers : Offers) : Offers :=
  match dhcpResponse h buf with
  | none => offers
  | some (k, _, msgType) =>
    if msgType = msgOffer then update offers k (some (word32 buf.block (buf.data + 16))) else offers

def dhcpTurn (s : Host × Offers) (e : NetEnv × NetBuf) : Host × Offers := (dhcpInput e.1 s.1 e.2, noteOffer s.1 e.2 s.2)

def dhcpRun (s : Host × Offers) (packets : List (NetEnv × NetBuf)) : Host × Offers := packets.foldl dhcpTurn s

/-- The words of a client that an ACK copies are those of its last offer, or zero before the first one. -/
def Tracked (s : Host × Offers) : Prop :=
  ∀ k client, s.1.clients[k]? = some client →
    (∀ y, s.2 k = some y → client.yiaddr = ntohl y) ∧
      (s.2 k = none → client.yiaddr = 0#32 ∧ client.subnetMask = 0#32 ∧ client.gateway = 0#32)

theorem dhcpSwitch_words (env : NetEnv) (h : Host) (client : DhcpClient) (m : Mem) (a msgType : Nat) :
    (msgType = msgOffer → (dhcpSwitch env h client m a msgType).2.yiaddr = ntohl (word32 m (a + 16))) ∧
      (msgType ≠ msgOffer → (dhcpSwitch env h client m a msgType).2.yiaddr = client.yiaddr ∧
        (dhcpSwitch env h client m a msgType).2.subnetMask = client.subnetMask ∧
        (dhcpSwitch env h client m a msgType).2.gateway = client.gateway) := by
  unfold dhcpSwitch
  constructor
  · intro hoffer
    rw [if_pos hoffer]
    rfl
  intro hoffer
  rw [if_neg hoffer]
  split
  · exact ⟨rfl, rfl, rfl⟩
  split <;> exact ⟨rfl, rfl, rfl⟩

theorem Tracked.turn {s : Host × Offers} (tracked : Tracked s) (e : NetEnv × NetBuf) : Tracked (dhcpTurn s e) := by
  intro j other hother
  unfold dhcpTurn at hother ⊢
  rw [dhcpInput_eq] at hother
  unfold noteOffer
  cases hresponse : dhcpResponse s.1 e.2 with
  | none =>
    rw [hresponse] at hother
    exact tracked j other hother
  | some response =>
    obtain ⟨k, client, msgType⟩ := response
    have hclient := dhcpResponse_client hresponse
    obtain ⟨hoffered, hkept⟩ := dhcpSwitch_words e.1 s.1 client e.2.block e.2.data msgType
    rw [hresponse] at hother
    dsimp only at hother ⊢
    by_cases hj : j = k
    · subst hj
      rw [List.getElem?_set_self (List.getElem?_eq_some_iff.1 hclient).1, Option.some.injEq] at hother
      subst hother
      by_cases hoffer : msgType = msgOffer
      · rw [if_pos hoffer, update_self]
        exact ⟨fun y hy => by rw [hoffered hoffer, Option.some.inj hy], nofun⟩
      · obtain ⟨hyiaddr, hmask, hgateway⟩ := hkept hoffer
        rw [if_neg hoffer, hyiaddr, hmask, hgateway]
        exact tracked j client hclient
    · rw [List.getElem?_set_ne (fun h => hj h.symm)] at hother
      split
      · rw [update_of_ne hj]
        exact tracked j other hother
      · exact tracked j other hother

theorem Tracked.run : ∀ {s : Host × Offers} (packets : List (NetEnv × NetBuf)), Tracked s → Tracked (dhcpRun s packets)
  | _, [], tracked => tracked
  | _, e :: packets, tracked => Tracked.run packets (tracked.turn e)

/-! ## The addresses of a device -/

def NetDevice.addresses (dev : NetDevice) : Ipv4Addr × Ipv4Addr × Ipv4Addr := (dev.ipAddr, dev.netmask, dev.gateway)

/-- **The rule of assignment, for one packet**: the addresses of a device change only at an ACK that its client takes up
after an OFFER, and then the address is the one offered. -/
def AssignedRight (s : Host × Offers) (e : NetEnv × NetBuf) : Prop :=
  (∀ dev, ((dhcpInput e.1 s.1 e.2).devs dev).addresses ≠ (s.1.devs dev).addresses →
    ∃ k client y, dhcpResponse s.1 e.2 = some (k, client, msgAck) ∧ client.dev = dev ∧ s.2 k = some y) ∧
  ∀ k client y, dhcpResponse s.1 e.2 = some (k, client, msgAck) → s.2 k = some y →
    ((dhcpInput e.1 s.1 e.2).devs client.dev).ipAddr = y

/-- An ACK that is taken up comes after an offer that reads the same from behind, or, before any offer, for a device
without addresses. -/
def AckFits (s : Host × Offers) (e : NetEnv × NetBuf) : Prop :=
  ∀ k client, dhcpResponse s.1 e.2 = some (k, client, msgAck) →
    (∀ y, s.2 k = some y → octet y 0 = octet y 3 ∧ octet y 1 = octet y 2) ∧
      (s.2 k = none → (s.1.devs client.dev).addresses = (0#32, 0#32, 0#32))

theorem octet_ntohl (y : Ipv4Addr) {i : Nat} (hi : i < 4) : octet (ntohl y) i = octet y (3 - i) := by
  unfold ntohl octet
  interval_cases i <;>
  · ext j hj
    interval_cases j <;> simp

theorem octet_ext {x y : Ipv4Addr} (h : ∀ i, i < 4 → octet x i = octet y i) : x = y := by
  apply BitVec.eq_of_getLsbD_eq
  intro j hj
  have hbit : ∀ z : Ipv4Addr, z.getLsbD j = (octet z (j / 8)).getLsbD (j % 8) := fun z => by
    unfold octet
    rw [BitVec.getLsbD_extractLsb', Nat.div_add_mod, decide_eq_true (Nat.mod_lt j (by decide)), Bool.true_and]
  rw [hbit x, hbit y, h (j / 8) (by omega)]

theorem ntohl_eq_self (y : Ipv4Addr) : ntohl y = y ↔ octet y 0 = octet y 3 ∧ octet y 1 = octet y 2 := by
  constructor
  · intro hself
    have h0 := octet_ntohl y (show 0 < 4 by decide)
    have h1 := octet_ntohl y (show 1 < 4 by decide)
    rw [hself] at h0 h1
    exact ⟨h0, h1⟩
  rintro ⟨h03, h12⟩
  refine octet_ext fun i hi => ?_
  rw [octet_ntohl y hi]
  interval_cases i
  · exact h03.symm
  · exact h12.symm
  · exact h12
  · exact h03

theorem dhcpInput_devs (env : NetEnv) (h : Host) (buf : NetBuf) : (dhcpInput env h buf).devs =
      match dhcpResponse h buf with
      | none => h.devs
      | some (_, client, msgType) =>
        if msgType = msgAck then update h.devs client.dev ((h.devs client.dev).assign client) else h.devs := by
  rw [dhcpInput_eq]
  cases dhcpResponse h buf with
  | none => rfl
  | some response => exact (dhcpSwitch_same env h response.2.1 buf.block buf.data response.2.2).1

theorem dhcpInput_ack {k : Nat} {client : DhcpClient} (hresponse : dhcpResponse h buf = some (k, client, msgAck)) :
    (dhcpInput env h buf).devs = update h.devs client.dev ((h.devs client.dev).assign client) := by
  rw [dhcpInput_devs, hresponse]
  exact if_pos rfl

theorem dhcpInput_no_ack
    (hno : ∀ k client, dhcpResponse h buf ≠ some (k, client, msgAck)) : (dhcpInput env h buf).devs = h.devs := by
  rw [dhcpInput_devs]
  cases hresponse : dhcpResponse h buf with
  | none => rfl
  | some response =>
    obtain ⟨k, client, msgType⟩ := response
    exact if_neg fun hack => hno k client (by rw [hresponse, hack])

theorem assignedRight_iff {s : Host × Offers} (tracked : Tracked s) (e : NetEnv × NetBuf) :
    AssignedRight s e ↔ AckFits s e := by
  by_cases hack : ∃ k client, dhcpResponse s.1 e.2 = some (k, client, msgAck)
  swap
  · have hno : ∀ k client, dhcpResponse s.1 e.2 ≠ some (k, client, msgAck) := fun k client h => hack ⟨k, client, h⟩
    refine iff_of_true ⟨fun dev hchange => ?_, fun k client y h => absurd h (hno k client)⟩
      (fun k client h => absurd h (hno k client))
    rw [dhcpInput_no_ack hno] at hchange
    exact absurd rfl hchange
  obtain ⟨k, client, hresponse⟩ := hack
  obtain ⟨hoffered, hzero⟩ := tracked k client (dhcpResponse_client hresponse)
  have hdevs : (dhcpInput e.1 s.1 e.2).devs =
      update s.1.devs client.dev ((s.1.devs client.dev).assign client) := dhcpInput_ack hresponse
  constructor
  · rintro ⟨honly, haddress⟩ k' client' hresponse'
    obtain ⟨rfl, hpair⟩ := Prod.mk.inj (Option.some.inj (hresponse.symm.trans hresponse'))
    obtain ⟨rfl, -⟩ := Prod.mk.inj hpair
    constructor
    · intro y hy
      have hip := haddress k client y hresponse hy
      rw [hdevs, update_self] at hip
      exact (ntohl_eq_self y).1 ((hoffered y hy).symm.trans hip)
    intro hnone
    by_contra hne
    obtain ⟨hyiaddr, hmask, hgateway⟩ := hzero hnone
    have hchange : ((dhcpInput e.1 s.1 e.2).devs client.dev).addresses ≠ (s.1.devs client.dev).addresses := by
      rw [hdevs, update_self]
      unfold NetDevice.assign NetDevice.addresses
      rw [hyiaddr, hmask, hgateway]
      exact fun heq => hne heq.symm
    obtain ⟨k', client', y, hresponse'', -, hy⟩ := honly client.dev hchange
    obtain ⟨rfl, -⟩ := Prod.mk.inj (Option.some.inj (hresponse.symm.trans hresponse''))
    rw [hnone] at hy
    cases hy
  · intro hfits
    obtain ⟨hpalindrome, hempty⟩ := hfits k client hresponse
    constructor
    · intro dev hchange
      have hdev : client.dev = dev := by
        by_contra hne
        rw [hdevs, update_of_ne (fun h => hne h.symm)] at hchange
        exact hchange rfl
      subst hdev
      cases hoffer : s.2 k with
      | some y => exact ⟨k, client, y, hresponse, rfl, hoffer⟩
      | none =>
        obtain ⟨hyiaddr, hmask, hgateway⟩ := hzero hoffer
        refine absurd ?_ hchange
        rw [hdevs, update_self, hempty hoffer]
        unfold NetDevice.assign NetDevice.addresses
        rw [hyiaddr, hmask, hgateway]
    · intro k' client' y hresponse' hy
      obtain ⟨rfl, hpair⟩ := Prod.mk.inj (Option.some.inj (hresponse.symm.trans hresponse'))
      obtain ⟨rfl, -⟩ := Prod.mk.inj hpair
      rw [hdevs, update_self]
      exact (hoffered y hy).trans ((ntohl_eq_self y).2 (hpalindrome y hy))

def FreshClients (h : Host) : Prop := ∀ client ∈ h.clients, ∃ dev xid, client = dhcpClient dev xid

theorem FreshClients.tracked (fresh : FreshClients h) : Tracked (h, fun _ => none) := by
  intro k client hclient
  obtain ⟨dev, xid, rfl⟩ := fresh client (List.mem_of_getElem? hclient)
  exact ⟨fun y hy => (nomatch hy), fun _ => ⟨rfl, rfl, rfl⟩⟩

/-- **Every packet of a run keeps the rule of assignment exactly if every ACK that is taken up fits**: it comes after an
OFFER whose address reads the same from behind, or for a device that has no addresses. -/
theorem dhcp_assign_iff (h : Host) (fresh : FreshClients h) (packets : List (NetEnv × NetBuf)) :
    (∀ before e after, packets = before ++ e :: after → AssignedRight (dhcpRun (h, fun _ => none) before) e) ↔
      ∀ before e after, packets = before ++ e :: after → AckFits (dhcpRun (h, fun _ => none) before) e := by
  have hstep : ∀ before e, AssignedRight (dhcpRun (h, fun _ => none) before) e ↔
      AckFits (dhcpRun (h, fun _ => none) before) e :=
    fun before e => assignedRight_iff (fresh.tracked.run before) e
  constructor
  · exact fun hright before e after hpackets => (hstep before e).1 (hright before e after hpackets)
  · exact fun hfits before e after hpackets => (hstep before e).2 (hfits before e after hpackets)

/-- A message of a server with the transaction, the hardware address, `yiaddr` and the type. -/
def serverMessage (xid : BitVec 32) (mac : Mac) (yiaddr : Ipv4Addr) (msgType : Nat) : NetBuf :=
  let m := store (store (fun _ => 0#8) 68 4 (ntohl xid).toNat) 80 4 yiaddr.toNat
  let m := store (blit m 92 6 (macBytes mac)) 300 4 (ntohl dhcpMagicCookie).toNat
  let options := dhcpAddOptionEnd 304 (dhcpAddOptionByte 304 (m, 0) dhcpOptMsgType msgType)
  { netAllocBuf options.1 (dhcpHeaderSize + options.2) with len := dhcpHeaderSize + options.2 }

def dhcpHost : Host := (dhcpInit pingHost true eth0 0x1234#32).1

def offerPacket : NetEnv × NetBuf :=
  (quietEnv, serverMessage 0x1234#32 eth0Device.macAddr (ipv4 192 168 1 7) msgOffer)

def ackPacket : NetEnv × NetBuf :=
  (quietEnv, serverMessage 0x1234#32 eth0Device.macAddr (ipv4 192 168 1 7) msgAck)

theorem dhcpHost_fresh : FreshClients dhcpHost := by
  intro client hclient
  exact ⟨eth0, 0x1234#32, List.mem_singleton.1 hclient⟩

theorem dhcpHost_assign_iff : FreshClients dhcpHost ∧
      ((∀ before e after, [offerPacket, ackPacket] = before ++ e :: after →
          AssignedRight (dhcpRun (dhcpHost, fun _ => none) before) e) ↔
        ∀ before e after, [offerPacket, ackPacket] = before ++ e :: after →
          AckFits (dhcpRun (dhcpHost, fun _ => none) before) e) :=
  ⟨dhcpHost_fresh, dhcp_assign_iff dhcpHost dhcpHost_fresh [offerPacket, ackPacket]⟩

/-- The host that was offered 192.168.1.7 takes the address 7.1.168.192. -/
theorem offer_reversed :
    ((dhcpRun (dhcpHost, fun _ => none) [offerPacket, ackPacket]).1.devs eth0).ipAddr = ipv4 7 1 168 192 ∧
      ¬ ∀ before e after, [offerPacket, ackPacket] = before ++ e :: after →
        AssignedRight (dhcpRun (dhcpHost, fun _ => none) before) e := by
  have hreversed : ((dhcpRun (dhcpHost, fun _ => none) [offerPacket, ackPacket]).1.devs eth0).ipAddr =
      ipv4 7 1 168 192 := by
    decide +kernel
  refine ⟨hreversed, fun hright => ?_⟩
  have hoffer : (dhcpRun (dhcpHost, fun _ => none) [offerPacket]).2 0 = some (ipv4 192 168 1 7) := by decide +kernel
  obtain ⟨client, hresponse, hdev⟩ : ∃ client,
    dhcpResponse (dhcpRun (dhcpHost, fun _ => none) [offerPacket]).1 ackPacket.2 =
      some (0, client, msgAck) ∧ client.dev = eth0 := ⟨_, rfl, rfl⟩
  have haddress := (hright [offerPacket] ackPacket [] rfl).2 0 client (ipv4 192 168 1 7) hresponse hoffer
  rw [hdev] at haddress
  exact absurd (hreversed.symm.trans haddress) (by decide)

/-! ## Getting an address -/

/-- The frame carries a message of a client: of this type, transaction and hardware address, behind the headers of
Ethernet, IPv4 and UDP. -/
def CarriesDhcp (frame : Frame) (msgType : Nat) (xid : BitVec 32) (mac : Mac) : Prop :=
  (frame.bytes 42).toNat = 1 ∧ ntohl (word32 frame.bytes 46) = xid ∧ macAt frame.bytes 70 = mac ∧
    ntohl (word32 frame.bytes 278) = dhcpMagicCookie ∧
    ∃ p len, dhcpFindOption frame.bytes 42 dhcpOptMsgType = some (p, len) ∧ 1 ≤ len ∧ (frame.bytes p).toNat = msgType

def CarriesRequest (frame : Frame) (xid : BitVec 32) (mac : Mac) (yiaddr : Ipv4Addr) : Prop :=
  CarriesDhcp frame msgRequest xid mac ∧
    ∃ p len, dhcpFindOption frame.bytes 42 dhcpOptRequestedIp = some (p, len) ∧ 4 ≤ len ∧ word32 frame.bytes p = yiaddr

def IsOffer (buf : NetBuf) (xid : BitVec 32) (mac : Mac) : Prop :=
  dhcpHeaderSize ≤ buf.len ∧ ntohl (word32 buf.block (buf.data + 236)) = dhcpMagicCookie ∧
    ntohl (word32 buf.block (buf.data + 4)) = xid ∧ macAt buf.block (buf.data + 28) = mac ∧
    ∃ p len, dhcpFindOption buf.block buf.data dhcpOptMsgType = some (p, len) ∧ 1 ≤ len ∧
      (buf.block p).toNat = msgOffer

def started (env : NetEnv) (h : Host) (dev : Nat) (xid xid' : BitVec 32) : Host × DhcpClient :=
  let init := dhcpInit h true dev xid
  let start := dhcpStart env init.1 init.2.1 xid'
  (start.1, start.2.1)

/-- **The exchange gets on**: a DISCOVER with the transaction of the client has been sent on the device, and every later
OFFER for this transaction, whatever was received before it, makes the host send a request for the address offered. -/
def Progresses (env : NetEnv) (h : Host) (dev : Nat) (xid xid' : BitVec 32) : Prop :=
  let s := started env h dev xid xid'
  (∃ frame, (dev, frame) ∈ s.1.sent.drop h.sent.length ∧
    CarriesDhcp frame msgDiscover s.2.xid (h.devs dev).macAddr) ∧
  ∀ (before : List (NetEnv × NetBuf)) (e : NetEnv × NetBuf), IsOffer e.2 s.2.xid (h.devs dev).macAddr →
    ∃ frame, (dev, frame) ∈
        (dhcpInput e.1 (dhcpRun (s.1, fun _ => none) before).1 e.2).sent.drop
          (dhcpRun (s.1, fun _ => none) before).1.sent.length ∧
      CarriesRequest frame s.2.xid (h.devs dev).macAddr (word32 e.2.block (e.2.data + 16))

theorem dhcpSendMessage_unrouted (hroutes : h.routes = []) (env : NetEnv) (client : DhcpClient) (msgType : Nat)
    (requestedIp : BitVec 32) : (dhcpSendMessage env h client msgType requestedIp).1 = h := by
  unfold dhcpSendMessage udpOutput ipv4Output
  cases env.block with
  | none => rfl
  | some block =>
    rw [hroutes]
    rfl

theorem started_unrouted (hroutes : h.routes = []) (env : NetEnv) (dev : Nat) (xid xid' : BitVec 32) :
    (started env h dev xid xid').1 = { h with clients := dhcpClient dev xid :: h.clients } := by
  have hinit : ({ h with clients := dhcpClient dev xid :: h.clients } : Host).routes = [] := hroutes
  exact dhcpSendMessage_unrouted hinit env _ _ _

/-- **On a host without routes no DHCP exchange gets on**: the DISCOVER goes to 255.255.255.255, and `ipv4_output` has
no route for it. -/
theorem discover_never_sent (env : NetEnv) (h : Host) (dev : Nat) (xid xid' : BitVec 32) (hroutes : h.routes = []) :
    ¬ Progresses env h dev xid xid' := by
  rintro ⟨⟨frame, hframe, -⟩, -⟩
  rw [started_unrouted hroutes, List.drop_length] at hframe
  cases hframe

theorem dhcp_discover_never_sent : pingHost.routes = [] ∧ ¬ Progresses quietEnv pingHost eth0 0x1234#32 0x5678#32 :=
  ⟨rfl, discover_never_sent quietEnv pingHost eth0 0x1234#32 0x5678#32 rfl⟩

/-- With memory for the message at hand, the start of a client still sends nothing. -/
theorem discover_unsent :
    (started { quietEnv with block := some (fun _ => 0#8) } pingHost eth0 0x1234#32 0x5678#32).1.sent = [] ∧
      ¬ Progresses { quietEnv with block := some (fun _ => 0#8) } pingHost eth0 0x1234#32 0x5678#32 := by
  have hnone : (started { quietEnv with block := some (fun _ => 0#8) } pingHost eth0 0x1234#32 0x5678#32).1.sent = [] :=
    congrArg Host.sent (started_unrouted rfl _ _ _ _)
  refine ⟨hnone, ?_⟩
  rintro ⟨⟨frame, hframe, -⟩, -⟩
  cases hframe

end Net
end OS64
