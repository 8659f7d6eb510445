import OS64.NetStack
/-!
# Dhcp — the DHCP client

`dhcp_init` makes a client and puts a copy of it in front of the list `g_dhcp_clients`.  `dhcp_start` works on
the caller's client, `dhcp_input` on the copy in the list.
-/
namespace OS64
namespace Net

def dhcpServerPort : Nat := 67
def dhcpClientPort : Nat := 68
def dhcpMagicCookie : BitVec 32 := 0x63825363#32
def dhcpHeaderSize : Nat := 240

def dhcpOptPad : Nat := 0
def dhcpOptSubnetMask : Nat := 1
def dhcpOptRouter : Nat := 3
def dhcpOptDnsServer : Nat := 6
def dhcpOptHostname : Nat := 12
def dhcpOptRequestedIp : Nat := 50
def dhcpOptLeaseTime : Nat := 51
def dhcpOptMsgType : Nat := 53
def dhcpOptServerId : Nat := 54
def dhcpOptParamList : Nat := 55
def dhcpOptClientId : Nat := 61
def dhcpOptEnd : Nat := 255

def msgDiscover : Nat := 1
def msgOffer : Nat := 2
def msgRequest : Nat := 3
def msgAck : Nat := 5
def msgNak : Nat := 6

/-! ## Options -/

/-- `dhcp_add_option`, with the options at `a`; the state is the memory and `*offset`. -/
def dhcpAddOption (a : Nat) (s : Mem × Nat) (type len : Nat) (data : Mem) : Mem × Nat :=
  (blit (store (store s.1 (a + s.2) 1 type) (a + s.2 + 1) 1 len) (a + s.2 + 2) len data, s.2 + 2 + len)

def dhcpAddOptionByte (a : Nat) (s : Mem × Nat) (type value : Nat) : Mem × Nat :=
  (store (store (store s.1 (a + s.2) 1 type) (a + s.2 + 1) 1 1) (a + s.2 + 2) 1 value, s.2 + 3)

def dhcpAddOptionDword (a : Nat) (s : Mem × Nat) (type : Nat) (value : BitVec 32) : Mem × Nat :=
  (store (store (store s.1 (a + s.2) 1 type) (a + s.2 + 1) 1 4) (a + s.2 + 2) 4 (ntohl value).toNat, s.2 + 6)

def dhcpAddOptionEnd (a : Nat) (s : Mem × Nat) : Mem × Nat := (store s.1 (a + s.2) 1 dhcpOptEnd, s.2 + 1)

/-- The loop of `dhcp_find_option`, from `offset` on.  Every round moves on, so 300 rounds are enough. -/
def findOption (m : Mem) (a optType : Nat) : Nat → Nat → Option (Nat × Nat)
  | 0, _ => none
  | n + 1, offset =>
    if 300 ≤ offset then none
    else if (m (a + offset)).toNat = dhcpOptEnd then none
    else if (m (a + offset)).toNat = dhcpOptPad then findOption m a optType n (offset + 1)
    else if (m (a + offset)).toNat = optType then some (a + offset + 2, (m (a + offset + 1)).toNat)
    else findOption m a optType n (offset + 2 + (m (a + offset + 1)).toNat)

def dhcpFindOption (m : Mem) (a optType : Nat) : Option (Nat × Nat) := findOption m (a + dhcpHeaderSize) optType 300 0

def optionWord (m : Mem) (a optType : Nat) (old : BitVec 32) : BitVec 32 :=
  match dhcpFindOption m a optType with
  | some (p, len) => if 4 ≤ len then ntohl (word32 m p) else old
  | none => old

/-! ## Sending -/

def listBytes (bytes : List (BitVec 8)) : Mem := fun i => bytes.getD i 0#8

def dhcpHeader (m : Mem) (a : Nat) (mac : Mac) (xid : BitVec 32) : Mem :=
  let m := fill m a dhcpHeaderSize 0#8
  let m := store (store (store m a 1 1) (a + 1) 1 1) (a + 2) 1 6
  let m := store (store (store m (a + 4) 4 (ntohl xid).toNat) (a + 8) 2 (ntohs 0)) (a + 10) 2 (ntohs 0x8000)
  store (blit m (a + 28) 6 (macBytes mac)) (a + 236) 4 (ntohl dhcpMagicCookie).toNat

def dhcpOptions (m : Mem) (a : Nat) (mac : Mac) (msgType : Nat) (requestedIp : BitVec 32) : Mem × Nat :=
  let s := dhcpAddOptionByte a (m, 0) dhcpOptMsgType msgType
  let s := dhcpAddOption a s dhcpOptClientId 7 (fun i => if i = 0 then 1#8 else macBytes mac (i - 1))
  let s := if requestedIp ≠ 0#32 then dhcpAddOptionDword a s dhcpOptRequestedIp requestedIp else s
  let s := dhcpAddOption a s dhcpOptParamList 4 (listBytes [1#8, 3#8, 6#8, 51#8])
  let s := dhcpAddOption a s dhcpOptHostname 4 (listBytes [0x36#8, 0x34#8, 0x4F#8, 0x53#8])
  dhcpAddOptionEnd a s

/-- The buffer that `dhcp_send_message` hands to `udp_output`. -/
def dhcpMessage (block : Mem) (mac : Mac) (xid : BitVec 32) (msgType : Nat) (requestedIp : BitVec 32) : NetBuf :=
  let buf := netAllocBuf block (dhcpHeaderSize + 312)
  let options :=
    dhcpOptions (dhcpHeader buf.block buf.data mac xid) (buf.data + dhcpHeaderSize) mac msgType requestedIp
  { buf with block := options.1, len := dhcpHeaderSize + options.2 }

def dhcpSendMessage (env : NetEnv) (h : Host) (client : DhcpClient) (msgType : Nat) (requestedIp : BitVec 32) :
    Host × Int :=
  match env.block with
  | none => (h, -1)
  | some block =>
    udpOutput env h (dhcpMessage block (h.devs client.dev).macAddr client.xid msgType requestedIp) 0xFFFFFFFF#32 0#32
      dhcpServerPort dhcpClientPort

/-! ## Receiving -/

/-- What an OFFER, the message at `a`, makes of the client. -/
def DhcpClient.offered (client : DhcpClient) (m : Mem) (a : Nat) : DhcpClient :=
  { client with
    yiaddr := ntohl (word32 m (a + 16))
    serverIp := optionWord m a dhcpOptServerId client.serverIp
    subnetMask := optionWord m a dhcpOptSubnetMask client.subnetMask
    gateway := optionWord m a dhcpOptRouter client.gateway
    dnsServer := optionWord m a dhcpOptDnsServer client.dnsServer
    leaseTime := optionWord m a dhcpOptLeaseTime client.leaseTime }

/-- What an ACK makes of the client; `tick` is the time of the clock. -/
def DhcpClient.leased (client : DhcpClient) (tick : Nat) : DhcpClient :=
  { client with
    configured := true
    leaseExpires := u64 (tick / 1000 + client.leaseTime.toNat)
    renewTime := u64 (tick / 1000 + client.leaseTime.toNat / 2)
    rebindTime := u64 (tick / 1000 + u32 (client.leaseTime.toNat * 7) / 8) }

/-- The device with the words of the client copied into its address, netmask and gateway. -/
def NetDevice.assign (dev : NetDevice) (client : DhcpClient) : NetDevice :=
  { dev with ipAddr := client.yiaddr, netmask := client.subnetMask, gateway := client.gateway }

/-- The routes that an ACK adds: the subnet, and the default route if there is a gateway. -/
def dhcpRoutes (env : NetEnv) (routes : List Route) (client : DhcpClient) : List Route :=
  let routes := (ipv4RouteAdd routes env.routeRoom.1
    { dest := client.yiaddr &&& client.subnetMask, netmask := client.subnetMask, gateway := 0#32, src := client.yiaddr,
      dev := client.dev, metric := 0 }).1
  if client.gateway ≠ 0#32 then
    (ipv4RouteAdd routes env.routeRoom.2
      { dest := 0#32, netmask := 0#32, gateway := client.gateway, src := client.yiaddr, dev := client.dev,
        metric := 0 }).1
  else routes

def Host.notify (h : Host) (client : DhcpClient) (success : Bool) : Host :=
  if client.callback ≠ 0 then { h with notified := h.notified ++ [(client.callback, success)] } else h

/-- The checks of `dhcp_process_response`: the transaction and the message type, if the message at `a` is for the
client. -/
def dhcpMessageType (client : DhcpClient) (m : Mem) (a : Nat) : Option Nat :=
  if ntohl (word32 m (a + 4)) ≠ client.xid then none
  else
    match dhcpFindOption m a dhcpOptMsgType with
    | none => none
    | some (opt, optLen) => if optLen < 1 then none else some (m opt).toNat

def dhcpSwitch (env : NetEnv) (h : Host) (client : DhcpClient) (m : Mem) (a msgType : Nat) : Host × DhcpClient :=
  if msgType = msgOffer then
    ((dhcpSendMessage env h (client.offered m a) msgRequest (client.offered m a).yiaddr).1, client.offered m a)
  else if msgType = msgAck then
    ({ h with
        devs := Function.update h.devs client.dev ((h.devs client.dev).assign client)
        routes := dhcpRoutes env h.routes client }.notify client true, client.leased env.now)
  else if msgType = msgNak then (h.notify client false, { client with configured := false })
  else (h, client)

def dhcpProcessResponse (env : NetEnv) (h : Host) (client : DhcpClient) (m : Mem) (a : Nat) : Host × DhcpClient :=
  match dhcpMessageType client m a with
  | none => (h, client)
  | some msgType => dhcpSwitch env h client m a msgType

/-- The client that `dhcp_input` finds for the message: the first in the list whose device has the hardware address. -/
def dhcpAddressee (h : Host) (buf : NetBuf) : Option Nat :=
  if buf.len < dhcpHeaderSize then none
  else if ntohl (word32 buf.block (buf.data + 236)) ≠ dhcpMagicCookie then none
  else h.clients.findIdx? (fun client => decide ((h.devs client.dev).macAddr = macAt buf.block (buf.data + 28)))

/-- `dhcp_input`; it uses no other argument than the buffer. -/
def dhcpInput (env : NetEnv) (h : Host) (buf : NetBuf) : Host :=
  match dhcpAddressee h buf with
  | none => h
  | some k =>
    match h.clients[k]? with
    | none => h
    | some client =>
      let done := dhcpProcessResponse env h client buf.block buf.data
      { done.1 with clients := done.1.clients.set k done.2 }

/-! ## The client's interface -/

def dhcpClient (dev : Nat) (xid : BitVec 32) : DhcpClient where
  dev := dev
  running := false
  configured := false
  xid := xid
  yiaddr := 0#32
  serverIp := 0#32
  subnetMask := 0#32
  gateway := 0#32
  dnsServer := 0#32
  leaseTime := 0#32
  leaseExpires := 0
  renewTime := 0
  rebindTime := 0
  callback := 0

/-- `dhcp_init`; `xid` is what the generator returns. -/
def dhcpInit (h : Host) (malloc : Bool) (dev : Nat) (xid : BitVec 32) : Host × DhcpClient × Int :=
  if malloc then ({ h with clients := dhcpClient dev xid :: h.clients }, dhcpClient dev xid, 0)
  else (h, dhcpClient dev xid, -1)

/-- `dhcp_start`; `xid` is what the generator returns. -/
def dhcpStart (env : NetEnv) (h : Host) (client : DhcpClient) (xid : BitVec 32) : Host × DhcpClient × Int :=
  let client := { client with running := true, configured := false, xid := xid }
  let done := dhcpSendMessage env h client msgDiscover 0#32
  (done.1, client, done.2)

/-! ## What the client leaves alone -/

theorem dhcpSendMessage_sends (env : NetEnv) (h : Host) (client : DhcpClient) (msgType : Nat)
    (requestedIp : BitVec 32) : ∃ frames, Sends h (dhcpSendMessage env h client msgType requestedIp).1 frames := by
  unfold dhcpSendMessage
  cases env.block with
  | none => exact ⟨[], Sends.nothing h⟩
  | some block =>
    obtain ⟨frames, hsends, -⟩ := ipv4Output_sends env h
      (udpPacket (dhcpMessage block (h.devs client.dev).macAddr client.xid msgType requestedIp) dhcpServerPort
        dhcpClientPort) 0xFFFFFFFF#32 0#32 ipProtoUdp
    exact ⟨frames, hsends⟩

theorem Host.notify_same (h : Host) (client : DhcpClient) (success : Bool) :
    (h.notify client success).devs = h.devs ∧ (h.notify client success).clients = h.clients ∧
      (h.notify client success).calls = h.calls := by
  unfold notify
  split <;> exact ⟨rfl, rfl, rfl⟩

theorem dhcpSwitch_same (env : NetEnv) (h : Host) (client : DhcpClient) (m : Mem) (a msgType : Nat) :
    (dhcpSwitch env h client m a msgType).1.devs =
        (if msgType = msgAck then Function.update h.devs client.dev ((h.devs client.dev).assign client) else h.devs) ∧
      (dhcpSwitch env h client m a msgType).1.clients = h.clients ∧
      (dhcpSwitch env h client m a msgType).1.calls = h.calls := by
  unfold dhcpSwitch
  by_cases hoffer : msgType = msgOffer
  · obtain ⟨frames, hsends⟩ := dhcpSendMessage_sends env h (client.offered m a) msgRequest (client.offered m a).yiaddr
    rw [if_pos hoffer, if_neg (by rw [hoffer]; decide)]
    exact ⟨hsends.devs, hsends.clients, hsends.calls⟩
  rw [if_neg hoffer]
  by_cases hack : msgType = msgAck
  · rw [if_pos hack, if_pos hack]
    exact Host.notify_same _ _ _
  rw [if_neg hack, if_neg hack]
  by_cases hnak : msgType = msgNak
  · rw [if_pos hnak]
    exact Host.notify_same _ _ _
  · rw [if_neg hnak]
    exact ⟨rfl, rfl, rfl⟩

def dhcpResponse (h : Host) (buf : NetBuf) : Option (Nat × DhcpClient × Nat) :=
  match dhcpAddressee h buf with
  | none => none
  | some k =>
    match h.clients[k]? with
    | none => none
    | some client => (dhcpMessageType client buf.block buf.data).map fun msgType => (k, client, msgType)

/-- **What `dhcp_input` does**: nothing, or the switch for the client that it takes the message up for. -/
theorem dhcpInput_eq (env : NetEnv) (h : Host) (buf : NetBuf) : dhcpInput env h buf = match dhcpResponse h buf with
      | none => h
      | some (k, client, msgType) =>
        { (dhcpSwitch env h client buf.block buf.data msgType).1 with
          clients := h.clients.set k (dhcpSwitch env h client buf.block buf.data msgType).2 } := by
  unfold dhcpInput dhcpResponse
  cases dhcpAddressee h buf with
  | none => rfl
  | some k =>
    dsimp only
    cases hclient : h.clients[k]? with
    | none => rfl
    | some client =>
      dsimp only
      unfold dhcpProcessResponse
      cases dhcpMessageType client buf.block buf.data with
      | none =>
        have hset : h.clients.set k client = h.clients := by
          obtain ⟨hk, hget⟩ := List.getElem?_eq_some_iff.1 hclient
          rw [← hget, List.set_getElem_self]
        dsimp only [Option.map_none]
        rw [hset]
      | some msgType =>
        dsimp only [Option.map_some]
        rw [(dhcpSwitch_same env h client buf.block buf.data msgType).2.1]

theorem dhcpResponse_client {h : Host} {buf : NetBuf} {k msgType : Nat} {client : DhcpClient}
    (hresponse : dhcpResponse h buf = some (k, client, msgType)) : h.clients[k]? = some client := by
  unfold dhcpResponse at hresponse
  cases haddressee : dhcpAddressee h buf with
  | none =>
    rw [haddressee] at hresponse
    cases hresponse
  | some k' =>
    rw [haddressee] at hresponse
    dsimp only at hresponse
    cases hclient : h.clients[k']? with
    | none =>
      rw [hclient] at hresponse
      cases hresponse
    | some client' =>
      rw [hclient] at hresponse
      obtain ⟨_, _, heq⟩ := Option.map_eq_some_iff.1 hresponse
      cases heq
      exact hclient

theorem dhcpInput_calls (env : NetEnv) (h : Host) (buf : NetBuf) : (dhcpInput env h buf).calls = h.calls := by
  rw [dhcpInput_eq]
  cases dhcpResponse h buf with
  | none => rfl
  | some response => exact (dhcpSwitch_same env h response.2.1 buf.block buf.data response.2.2).2.2

end Net
end OS64
