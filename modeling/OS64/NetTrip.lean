import OS64.NetInput
/-!
# NetTrip — what a packet says at the other end

Every layer moves `data` forward before it writes its header, and none but `udp_output` adds the header to `len`.  The
frame starts behind the headers of the layers above: what follows the Ethernet header is neither an echo reply to the
request (`addressed_iff`) nor a UDP packet with the payload (`udp_never_arrives`).
-/
namespace OS64
namespace Net

/-! ## Echo requests -/

variable {buf : NetBuf} {env : NetEnv} {h : Host} {dev : Nat} {route : Route}

/-- A message that `icmp_input` answers: an echo request with the right checksum. -/
def IsEcho (handler : IpHandler) (up : NetBuf) : Prop :=
  handler = .icmp ∧ icmpHeaderSize ≤ up.len ∧ icmpChecked up = true ∧ up.field 0 1 = icmpTypeEchoRequest

def Frame.hlen (frame : Frame) : Nat := 4 * ((frame.bytes 14).toNat % 16)

/-- The frame carries an echo reply to the requester, with the identifier, the sequence number and the data of the
request. -/
structure EchoReply (frame : Frame) (request : NetBuf) (requester : Ipv4Addr) : Prop where
  type : frame.bytes 12 = 8#8 ∧ frame.bytes 13 = 0#8
  version : (frame.bytes 14).toNat / 16 = 4
  hlen : 20 ≤ frame.hlen
  protocol : (frame.bytes 23).toNat = ipProtoIcmp
  dst : word32 frame.bytes 30 = requester
  total : ntohs (load frame.bytes 16 2) = frame.hlen + request.len
  fits : 14 + frame.hlen + request.len ≤ frame.len
  reply : (frame.bytes (14 + frame.hlen)).toNat = icmpTypeEchoReply
  rest : ∀ i, 4 ≤ i → i < request.len → frame.bytes (14 + frame.hlen + i) = request.byte i

/-- A frame for a buffer as long as the request has no room for the headers: a long one ends too early, and in a short
one the protocol falls into the padding. -/
theorem ethFrame_not_reply {request : NetBuf} (hlen : buf.len = request.len) (srcMac dstMac : Mac) (type : Nat)
    (requester : Ipv4Addr) : ¬ EchoReply (ethFrame buf srcMac dstMac type).frame request requester := fun hreply => by
  have hfits : 14 + (ethFrame buf srcMac dstMac type).frame.hlen + request.len ≤ max buf.len 50 := by
    rw [← ethFrame_len buf srcMac dstMac type]
    exact hreply.fits
  have hheader := hreply.hlen
  have hzero : (ethFrame buf srcMac dstMac type).byte 23 = 0#8 :=
    ethFrame_pad buf srcMac dstMac type (by omega) (by omega)
  have hprotocol : ((ethFrame buf srcMac dstMac type).byte 23).toNat = ipProtoIcmp := hreply.protocol
  rw [hzero] at hprotocol
  exact absurd hprotocol (by decide)

theorem arp_not_reply {frame : Frame} (harp : IsArp frame) (request : NetBuf) (requester : Ipv4Addr) :
    ¬ EchoReply frame request requester := fun hreply => by
  obtain ⟨block, dev, ip, srcMac, rfl⟩ := harp
  have htype : (ethFrame (arpPacket block dev ip) srcMac ethMacBroadcast ethPArp).byte 13 = 0#8 := hreply.type.2
  rw [arpFrame_type] at htype
  exact absurd htype (by decide)

/-- What the handler is to find, and what is to come of an echo request. -/
def AddressedRight (env : NetEnv) (h : Host) (buf : NetBuf) (dev : Nat) (handler : IpHandler) (up : NetBuf) : Prop :=
  handlerArgs env dev = (ipSrc buf, ipDst buf) ∧
    (IsEcho handler up →
      ∃ e ∈ (ipv4Input env h buf dev).sent.drop h.sent.length, EchoReply e.2 up (ipSrc buf))

section
variable {handler : IpHandler} {up : NetBuf} (hdeliver : ipv4Receive h.ipv4Protocols buf = .deliver handler up)
  (hecho : IsEcho handler up)
include hdeliver hecho

theorem ipv4Input_echo : ipv4Input env h buf dev =
      (ipv4Output env h (echoReply up) (handlerArgs env dev).1 (handlerArgs env dev).2 ipProtoIcmp).1 := by
  obtain ⟨rfl, hlen, hchecked, htype⟩ := hecho
  unfold ipv4Input ipv4Deliver icmpInput
  rw [hdeliver]
  dsimp only
  rw [if_neg (by omega), if_neg (by rw [hchecked]; decide), if_pos htype]

theorem echo_unanswered : ∀ e ∈ (ipv4Input env h buf dev).sent.drop h.sent.length, ¬ EchoReply e.2 up (ipSrc buf) := by
  rw [ipv4Input_echo hdeliver hecho]
  obtain ⟨frames, hsends, hframes⟩ :=
    ipv4Output_sends env h (echoReply up) (handlerArgs env dev).1 (handlerArgs env dev).2 ipProtoIcmp
  rw [hsends.sent, List.drop_left]
  intro e he
  rcases hframes e he with harp | ⟨id, source, srcMac, dstMac, hframe⟩
  · exact arp_not_reply harp up (ipSrc buf)
  rw [hframe]
  refine ethFrame_not_reply ?_ srcMac dstMac ethPIp (ipSrc buf)
  show ((echoReply up).reserve ipv4HeaderMin).len = up.len
  rw [NetBuf.reserve_len]
  rfl

end

theorem handlerArgs_eq (env : NetEnv) (dev : Nat) (src dst : Ipv4Addr) :
    handlerArgs env dev = (src, dst) ↔ dev % 2 ^ 32 = src.toNat ∧ env.rdx % 2 ^ 32 = dst.toNat := by
  unfold handlerArgs
  rw [Prod.mk.injEq]
  constructor
  · rintro ⟨rfl, rfl⟩
    exact ⟨(BitVec.toNat_ofNat _ _).symm, (BitVec.toNat_ofNat _ _).symm⟩
  · rintro ⟨hsrc, hdst⟩
    exact ⟨BitVec.eq_of_toNat_eq (by rw [BitVec.toNat_ofNat, hsrc]),
      BitVec.eq_of_toNat_eq (by rw [BitVec.toNat_ofNat, hdst])⟩

/-- **A handler of ICMP or UDP finds the addresses of the header, and an echo request its reply, exactly if the pointer
to the device ends in the source address and the register of the third argument in the destination address, and the
packet is no echo request.** -/
theorem addressed_iff (env : NetEnv) (h : Host) (buf : NetBuf) (dev : Nat) (handler : IpHandler) (up : NetBuf)
    (hdeliver : ipv4Receive h.ipv4Protocols buf = .deliver handler up) : AddressedRight env h buf dev handler up ↔
      dev % 2 ^ 32 = (ipSrc buf).toNat ∧ env.rdx % 2 ^ 32 = (ipDst buf).toNat ∧ ¬ IsEcho handler up := by
  unfold AddressedRight
  rw [handlerArgs_eq, and_assoc]
  refine and_congr_right fun _ => and_congr_right fun _ => ?_
  constructor
  · intro hreply hecho
    obtain ⟨e, he, hright⟩ := hreply hecho
    exact echo_unanswered hdeliver hecho e he hright
  · intro hno hecho
    exact absurd hecho hno

/-- An echo request with 18 bytes of data from 10.0.0.2 to 10.0.0.1, as `ethernet_input` hands it on. -/
def pingPacket : NetBuf :=
  { netAllocBuf (blit (fun _ => 0#8) 78 46
      (listBytes
        ([0x45, 0, 0, 46, 0, 0, 0, 0, 64, 1, 0x66, 0xCD, 10, 0, 0, 2, 10, 0, 0, 1, 8, 0, 0x79, 0x5E, 0x12, 0x34,
          0, 1] ++ List.replicate 18 0x61#8))) 60 with data := 78, len := 46 }

/-- A quiet environment: no packet arrives, there is no memory, and the register holds zero. -/
def quietEnv : NetEnv where
  now := 0
  later := 1000
  heard := []
  block := none
  arpBlock := none
  routeRoom := (false, false)
  rdx := 0
  tcpInput := fun h _ _ => h
  ipv6Input := fun h _ _ => h
  tcpCalls := fun _ _ _ => rfl
  ipv6Calls := fun _ _ _ => rfl

def eth0 : Nat := 0xFFFF800000200000

/-- The device 10.0.0.1, with the hardware address 52:54:00:00:00:01. -/
def eth0Device : NetDevice where
  macAddr := macAt (listBytes [0x52, 0x54, 0, 0, 0, 1]) 0
  ipAddr := ipv4 10 0 0 1
  netmask := ipv4 255 255 255 0
  gateway := 0#32
  xmit := 0

def pingHost : Host := netInit (fun _ => eth0Device)

theorem ping_delivered : ipv4Receive pingHost.ipv4Protocols pingPacket = .deliver .icmp (pingPacket.pull 20) :=
  ipv4Receive_deliver.2 ⟨by unfold Accepted; decide +kernel, by decide +kernel, rfl⟩

theorem ping_isEcho : IsEcho .icmp (pingPacket.pull 20) := by
  unfold IsEcho
  decide +kernel

theorem ping_addressed_iff : ipv4Receive pingHost.ipv4Protocols pingPacket = .deliver .icmp (pingPacket.pull 20) ∧
      (AddressedRight quietEnv pingHost pingPacket eth0 .icmp (pingPacket.pull 20) ↔
        eth0 % 2 ^ 32 = (ipSrc pingPacket).toNat ∧ quietEnv.rdx % 2 ^ 32 = (ipDst pingPacket).toNat ∧
          ¬ IsEcho .icmp (pingPacket.pull 20)) :=
  ⟨ping_delivered, addressed_iff quietEnv pingHost pingPacket eth0 .icmp (pingPacket.pull 20) ping_delivered⟩

/-- The ping from 10.0.0.2 is taken for one from 0.0.32.0 to 0.0.0.0. -/
theorem ping_misaddressed : LengthsAgree pingPacket ∧ IsEcho .icmp (pingPacket.pull 20) ∧
      handlerArgs quietEnv eth0 = (ipv4 0 0 32 0, ipv4 0 0 0 0) ∧
      ¬ AddressedRight quietEnv pingHost pingPacket eth0 .icmp (pingPacket.pull 20) := by
  refine ⟨by unfold LengthsAgree; decide +kernel, ping_isEcho, by decide +kernel, fun hright => ?_⟩
  obtain ⟨e, he, hreply⟩ := hright.2 ping_isEcho
  exact echo_unanswered ping_delivered ping_isEcho e he hreply

/-! ## UDP payloads -/

theorem NetBuf.pull_len_le (buf : NetBuf) (n : Nat) : (buf.pull n).len ≤ buf.len := by
  unfold pull
  split
  · exact le_rfl
  · exact Nat.sub_le _ _

theorem icmpInput_calls (env : NetEnv) (h : Host) (buf : NetBuf) (src dst : Ipv4Addr) :
    (icmpInput env h buf src dst).1.calls = h.calls := by
  obtain ⟨frames, hsends, -⟩ := ipv4Output_sends env h (echoReply buf) src dst ipProtoIcmp
  unfold icmpInput
  split
  · rfl
  split
  · rfl
  split
  · exact hsends.calls
  split
  · split <;> rfl
  · rfl

theorem arpAnswer_calls (env : NetEnv) (h : Host) (buf : NetBuf) (dev : Nat) :
    (arpAnswer env h buf dev).calls = h.calls := by
  unfold arpAnswer
  split
  swap
  · rfl
  cases env.arpBlock with
  | none => rfl
  | some block =>
    obtain ⟨frames, hsends, -⟩ := ethernetOutput_sends h (arpReply block buf (h.devs dev)) dev
      (macAt buf.block (buf.data + 8)) ethPArp
    exact hsends.calls

theorem arpInput_calls (env : NetEnv) (h : Host) (buf : NetBuf) (dev : Nat) :
    (arpInput env h buf dev).calls = h.calls := by
  have hlearn : (arpLearn env h buf).calls = h.calls := by
    unfold arpLearn
    dsimp only
    split <;> rfl
  unfold arpInput
  split
  · rfl
  split
  · rfl
  split
  · rfl
  split
  · rfl
  · exact (arpAnswer_calls env (arpLearn env h buf) buf dev).trans hlearn

theorem udpInput_calls (env : NetEnv) (h : Host) (buf : NetBuf) (src dst : Ipv4Addr) :
    (udpInput env h buf src dst).1.calls = h.calls ∨
      ∃ call, (udpInput env h buf src dst).1.calls = h.calls ++ [call] ∧ call.payload.len + 8 ≤ buf.len := by
  unfold udpInput
  split
  · exact .inl rfl
  rename_i hlen
  split
  · exact .inl rfl
  cases h.udpHandlers (ntohs (buf.field 2 2)) with
  | none => exact .inl rfl
  | some handler =>
    have hpayload : (buf.pull udpHeaderSize).frame.len + 8 ≤ buf.len := by
      unfold NetBuf.frame NetBuf.pull
      rw [if_neg hlen]
      unfold udpHeaderSize at hlen ⊢
      dsimp only
      omega
    cases handler with
    | dhcp => exact .inr ⟨_, dhcpInput_calls env _ _, hpayload⟩
    | other id => exact .inr ⟨_, rfl, hpayload⟩

theorem ipv4Input_calls (env : NetEnv) (h : Host) (buf : NetBuf) (dev : Nat) :
    (ipv4Input env h buf dev).calls = h.calls ∨
      ∃ call, (ipv4Input env h buf dev).calls = h.calls ++ [call] ∧ ipVersion buf = 4 ∧
        call.payload.len + 8 ≤ buf.len := by
  unfold ipv4Input
  cases hverdict : ipv4Receive h.ipv4Protocols buf with
  | drop => exact .inl rfl
  | timeExceeded =>
    unfold ipv4TimeExceeded
    cases env.block with
    | none => exact .inl rfl
    | some block =>
      obtain ⟨frames, hsends, -⟩ := ipv4Output_sends env h _ (ipSrc buf) (ipDst buf) ipProtoIcmp
      exact .inl hsends.calls
  | deliver handler up =>
    obtain ⟨haccepted, -, hup⟩ := ipv4Receive_deliver.1 hverdict
    have hlen : up.len ≤ buf.len := by
      rw [hup]
      exact buf.pull_len_le _
    cases handler with
    | icmp => exact .inl (icmpInput_calls env h up _ _)
    | tcp => exact .inl (env.tcpCalls h up dev)
    | udp =>
      rcases udpInput_calls env h up (handlerArgs env dev).1 (handlerArgs env dev).2 with hsame |
        ⟨call, hcall, hpayload⟩
      · exact .inl hsame
      · exact .inr ⟨call, hcall, haccepted.1, by omega⟩

/-- **A frame calls at most one UDP handler**, for a packet of version 4 behind the Ethernet header, and what the
handler is given is at least 22 bytes shorter than the frame. -/
theorem ethernetInput_calls (env : NetEnv) (h : Host) (buf : NetBuf) (dev : Nat) :
    (ethernetInput env h buf dev).calls = h.calls ∨
      ∃ call, (ethernetInput env h buf dev).calls = h.calls ++ [call] ∧ (buf.byte 14).toNat / 16 = 4 ∧
        call.payload.len + 22 ≤ buf.len := by
  unfold ethernetInput
  split
  · exact .inl rfl
  rename_i hlen
  dsimp only
  split
  · exact .inl rfl
  cases h.ethProtocols (ntohs (buf.field 12 2)) with
  | none => exact .inl rfl
  | some handler =>
    cases handler with
    | ipv6 => exact .inl (env.ipv6Calls h _ dev)
    | arp => exact .inl (arpInput_calls env h _ dev)
    | ipv4 =>
      have hup : buf.pull ethHlen = { buf with data := buf.data + 14, len := buf.len - 14 } := by
        unfold NetBuf.pull
        rw [if_neg hlen]
        rfl
      rcases ipv4Input_calls env h (buf.pull ethHlen) dev with hsame | ⟨call, hcall, hversion, hpayload⟩
      · exact .inl hsame
      refine .inr ⟨call, hcall, ?_, ?_⟩
      · rw [hup] at hversion
        exact hversion
      · rw [hup] at hpayload
        dsimp only at hpayload
        omega

/-- The hardware address that a packet on the route goes to, if nothing has to be asked for. -/
def linkMac (h : Host) (env : NetEnv) (route : Route) (dest : Ipv4Addr) : Option Mac :=
  if isLoopback dest = true then some (h.devs route.dev).macAddr
  else (arpCacheLookup h.arp (nextHop route dest) env.now).2

theorem ipv4Transmit_link {dest : Ipv4Addr} {mac : Mac}
    (hmac : linkMac h env route dest = some mac) (hdev : route.dev ≠ 0) (buf : NetBuf) :
    (ipv4Transmit env h buf route dest).1.sent =
      h.sent ++ [(route.dev, (ethFrame buf (h.devs route.dev).macAddr mac ethPIp).frame)] := by
  unfold linkMac at hmac
  unfold ipv4Transmit
  by_cases hloop : isLoopback dest = true
  · rw [if_pos hloop] at hmac ⊢
    obtain rfl := Option.some.inj hmac
    unfold ethernetOutput
    rw [if_neg hdev]
  rw [if_neg hloop] at hmac ⊢
  unfold arpResolve
  revert hmac
  rcases arpCacheLookup h.arp (nextHop route dest) env.now with ⟨arp, found⟩
  rintro rfl
  dsimp only
  unfold ethernetOutput
  rw [if_neg hdev]

def payloadBuf (heap payload : Mem) (n : Nat) : NetBuf :=
  { netAllocBuf (blit heap netHeadroom n payload) n with len := n }

def received (heap : Mem) (frame : Frame) : NetBuf :=
  { netAllocBuf (blit heap netHeadroom frame.len frame.bytes) frame.len with len := frame.len }

structure Datagram where
  payload : Mem
  n : Nat
  dest : Ipv4Addr
  src : Ipv4Addr
  destPort : Nat
  srcPort : Nat

/-- Two hosts that a datagram can pass between: the sender has a route and the hardware address of a device of the
receiver, and the receiver has the handlers of `net_init` and one for the port. -/
structure UdpLink (a b : Host) (env : NetEnv) (d : Datagram) (route : Route) (dev : Nat) (handler : UdpHandler) :
    Prop where
  size : d.n ≤ 1400
  ports : d.destPort < 65536 ∧ d.srcPort < 65536
  found : ipv4RouteLookup a.routes d.dest = some route
  device : route.dev ≠ 0
  resolved : linkMac a env route d.dest = some (b.devs dev).macAddr
  eth : b.ethProtocols = netInitEth
  ipv4 : b.ipv4Protocols = netInitIpv4
  handler : b.udpHandlers d.destPort = some handler

/-- The datagram is sent in one frame, and this frame makes the receiver call the handler with the ports, the bytes and
the length of the datagram. -/
def Arrives (a b : Host) (env env' : NetEnv) (d : Datagram) (route : Route) (dev : Nat) (handler : UdpHandler)
    (heap heap' : Mem) : Prop :=
  ∃ frame call,
    (udpOutput env a (payloadBuf heap d.payload d.n) d.dest d.src d.destPort d.srcPort).1.sent =
      a.sent ++ [(route.dev, frame)] ∧
    (ethernetInput env' b (received heap' frame) dev).calls = b.calls ++ [call] ∧
    call.handler = handler ∧ call.srcPort = d.srcPort ∧ call.dstPort = d.destPort ∧ call.payload.len = d.n ∧
    ∀ i, i < d.n → call.payload.bytes i = d.payload i

def udpFrame (heap : Mem) (d : Datagram) (id : Nat) (source : Ipv4Addr) (srcMac dstMac : Mac) : NetBuf :=
  ethFrame (ipv4Header ((udpPacket (payloadBuf heap d.payload d.n) d.destPort d.srcPort).reserve ipv4HeaderMin) id
    ipProtoUdp source d.dest) srcMac dstMac ethPIp

theorem udpOutput_link {a b : Host} {d : Datagram} {handler : UdpHandler}
    (link : UdpLink a b env d route dev handler) (heap : Mem) : ∃ id source srcMac,
      (udpOutput env a (payloadBuf heap d.payload d.n) d.dest d.src d.destPort d.srcPort).1.sent =
        a.sent ++ [(route.dev, (udpFrame heap d id source srcMac (b.devs dev).macAddr).frame)] := by
  have hroute : ipv4Route a.routes d.dest = some route := by
    unfold ipv4Route
    rw [link.found]
  obtain ⟨source, hsource⟩ : ∃ source, ipv4Source { a with idCounter := u16 (a.idCounter + 1) } route d.src =
      some source := by
    unfold ipv4Source
    split
    · exact ⟨_, rfl⟩
    split
    · exact ⟨_, rfl⟩
    · rw [if_pos link.device]
      exact ⟨_, rfl⟩
  have hmac : linkMac { a with idCounter := u16 (a.idCounter + 1) } env route d.dest = some (b.devs dev).macAddr :=
    link.resolved
  refine ⟨u16 (a.idCounter + 1), source, (a.devs route.dev).macAddr, ?_⟩
  unfold udpOutput ipv4Output
  rw [hroute]
  dsimp only
  rw [hsource]
  exact ipv4Transmit_link hmac link.device _

theorem udpPacket_len (heap : Mem) (d : Datagram) (hn : d.n ≤ 1400) (id : Nat) (source : Ipv4Addr) :
    (ipv4Header ((udpPacket (payloadBuf heap d.payload d.n) d.destPort d.srcPort).reserve ipv4HeaderMin) id ipProtoUdp
      source d.dest).len = d.n + 8 := by
  exact u32_of_lt (by show d.n + 8 < _; omega)

theorem udpFrame_len (heap : Mem) (d : Datagram) (hn : d.n ≤ 1400) (id : Nat) (source : Ipv4Addr)
    (srcMac dstMac : Mac) : (udpFrame heap d id source srcMac dstMac).len = max (d.n + 8) 50 := by
  unfold udpFrame
  rw [ethFrame_len, udpPacket_len heap d hn]

/-- The headers of IPv4 and of UDP are written before the byte that follows the Ethernet header: in a short frame this
byte is padding, or what the block held before. -/
theorem udpFrame_version (heap : Mem) (d : Datagram) (hn : d.n < 42) (hheap : heap 120 = 0#8) (id : Nat)
    (source : Ipv4Addr) (srcMac dstMac : Mac) : (udpFrame heap d id source srcMac dstMac).byte 14 = 0#8 := by
  have hlen := udpPacket_len heap d (by omega) id source
  unfold udpFrame
  by_cases hpad : d.n + 8 ≤ 14
  · exact ethFrame_pad _ _ _ _ (by omega) (by omega)
  · rw [ethFrame_byte _ _ _ _ (by omega)]
    -- `data` is at 72 for UDP, at 92 for IPv4 and at 106 for Ethernet
    show blit heap 64 d.n d.payload 120 = 0#8
    rw [blit_apart _ _ (by omega), hheap]

theorem not_arrives {a b : Host} {d : Datagram} {handler : UdpHandler}
    (link : UdpLink a b env d route dev handler) {heap : Mem} (hheap : heap 120 = 0#8) (env' : NetEnv) (heap' : Mem) :
    ¬ Arrives a b env env' d route dev handler heap heap' := by
  rintro ⟨frame, call, hsent, hcalls, -, -, -, hlen, -⟩
  obtain ⟨id, source, srcMac, hframe⟩ := udpOutput_link link heap
  have hsame : frame = (udpFrame heap d id source srcMac (b.devs dev).macAddr).frame := by
    rw [hframe] at hsent
    exact (Prod.mk.inj (List.cons.inj (List.append_cancel_left hsent)).1).2.symm
  have hflen : frame.len = max (d.n + 8) 50 := by
    rw [hsame]
    exact udpFrame_len _ d link.size _ _ _ _
  rcases ethernetInput_calls env' b (received heap' frame) dev with hnone | ⟨call', hcall', hversion, hpayload⟩
  · rw [hcalls] at hnone
    exact absurd (congrArg List.length hnone) (by simp)
  rw [hcalls] at hcall'
  obtain rfl : call = call' := (List.cons.inj (List.append_cancel_left hcall')).1
  have hroom : d.n + 22 ≤ max (d.n + 8) 50 := by
    rw [hlen] at hpayload
    rwa [← hflen]
  have hbyte : (received heap' frame).byte 14 = 0#8 := by
    show blit heap' netHeadroom frame.len frame.bytes (netHeadroom + 14) = 0#8
    rw [blit_at _ _ (by omega), hsame]
    exact udpFrame_version _ d (by omega) hheap _ _ _ _
  rw [hbyte] at hversion
  exact absurd hversion (by decide)

/-- **No datagram can rely on arriving, whatever its payload, ports and addresses**: a frame for more than 28 bytes is
too short for its payload, and in the frame for fewer the packet begins with a byte that no layer has written, so it is
lost unless the block happened to hold an IPv4 header there. -/
theorem udp_never_arrives (a b : Host) (env env' : NetEnv) (d : Datagram) (route : Route) (dev : Nat)
    (handler : UdpHandler) (link : UdpLink a b env d route dev handler) :
    ¬ ∀ heap heap', Arrives a b env env' d route dev handler heap heap' :=
  fun harrives => not_arrives link rfl env' (fun _ => 0#8) (harrives (fun _ => 0#8) (fun _ => 0#8))

def subnetRoute : Route where
  dest := ipv4 10 0 0 0
  netmask := ipv4 255 255 255 0
  gateway := 0#32
  src := 0#32
  dev := eth0
  metric := 0

/-- The device 10.0.0.2, with the hardware address 52:54:00:00:00:02. -/
def peerDevice : NetDevice :=
  { eth0Device with macAddr := macAt (listBytes [0x52, 0x54, 0, 0, 0, 2]) 0, ipAddr := ipv4 10 0 0 2 }

def sender : Host :=
  { pingHost with routes := [subnetRoute], arp := arpCacheAdd arpCacheClear (ipv4 10 0 0 2) peerDevice.macAddr 0 }

def receiver : Host :=
  { netInit (fun _ => peerDevice) with udpHandlers := fun port => if port = 7 then some (.other 0) else none }

def hello : Datagram where
  payload := listBytes [0x68, 0x65, 0x6C, 0x6C, 0x6F]
  n := 5
  dest := ipv4 10 0 0 2
  src := ipv4 10 0 0 1
  destPort := 7
  srcPort := 9000

theorem hello_link : UdpLink sender receiver quietEnv hello subnetRoute eth0 (.other 0) where
  size := by decide
  ports := by decide
  found := rfl
  device := by decide
  resolved := by decide +kernel
  eth := rfl
  ipv4 := rfl
  handler := rfl

theorem hello_never_arrives : UdpLink sender receiver quietEnv hello subnetRoute eth0 (.other 0) ∧
      ¬ ∀ heap heap', Arrives sender receiver quietEnv quietEnv hello subnetRoute eth0 (.other 0) heap heap' :=
  ⟨hello_link, udp_never_arrives sender receiver quietEnv quietEnv hello subnetRoute eth0 (.other 0) hello_link⟩

/-- On a heap that was clear, the five bytes are lost. -/
theorem hello_lost : UdpLink sender receiver quietEnv hello subnetRoute eth0 (.other 0) ∧
      ¬ Arrives sender receiver quietEnv quietEnv hello subnetRoute eth0 (.other 0) (fun _ => 0#8) (fun _ => 0#8) :=
  ⟨hello_link, not_arrives hello_link rfl quietEnv (fun _ => 0#8)⟩

end Net
end OS64
