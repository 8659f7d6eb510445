import OS64.Dhcp
/-!
# NetInput — the way into the network stack

`ethernet_input` hands a frame to `ipv4_input`, which hands it to the handler of its protocol.  The handlers of ICMP and
of UDP are `icmp_input` and `udp_input`, which take the buffer and two addresses; they are registered through a cast and
called with the buffer and the device.
-/
namespace OS64
namespace Net

def icmpTypeEchoReply : Nat := 0
def icmpTypeEchoRequest : Nat := 8
def icmpTypeTimeExceeded : Nat := 11
def icmpCodeTtlExceeded : Nat := 0
def icmpHeaderSize : Nat := 8

/-! ## ARP -/

def arpReply (block : Mem) (buf : NetBuf) (dev : NetDevice) : NetBuf :=
  let reply := netAllocBuf block arpHeaderSize
  let m := store (blit block reply.data arpHeaderSize buf.byte) (reply.data + 6) 2 (ntohs 2)
  let m := store (blit m (reply.data + 18) 6 (fun i => buf.byte (8 + i))) (reply.data + 24) 4 (buf.field 14 4)
  let m := store (blit m (reply.data + 8) 6 (macBytes dev.macAddr)) (reply.data + 14) 4 dev.ipAddr.toNat
  { reply with block := m, len := arpHeaderSize }

def arpLearn (env : NetEnv) (h : Host) (buf : NetBuf) : Host :=
  let senderIp : Ipv4Addr := BitVec.ofNat 32 (buf.field 14 4)
  if senderIp ≠ 0#32 then { h with arp := arpCacheAdd h.arp senderIp (macAt buf.block (buf.data + 8)) env.now } else h

def arpAnswer (env : NetEnv) (h : Host) (buf : NetBuf) (dev : Nat) : Host :=
  if ntohs (buf.field 6 2) = 1 ∧ BitVec.ofNat 32 (buf.field 24 4) = (h.devs dev).ipAddr then
    match env.arpBlock with
    | none => h
    | some block => (ethernetOutput h (arpReply block buf (h.devs dev)) dev (macAt buf.block (buf.data + 8)) ethPArp).1
  else h

def arpInput (env : NetEnv) (h : Host) (buf : NetBuf) (dev : Nat) : Host :=
  if buf.len < arpHeaderSize then h
  else if ntohs (buf.field 0 2) ≠ 1 then h
  else if ntohs (buf.field 2 2) ≠ 0x0800 then h
  else if buf.field 4 1 ≠ 6 ∨ buf.field 5 1 ≠ 4 then h
  else arpAnswer env (arpLearn env h buf) buf dev

/-! ## ICMP and UDP -/

def icmpChecked (buf : NetBuf) : Bool :=
  decide (icmpChecksum (buf.setField 2 2 0).block buf.data buf.len = buf.field 2 2)

def echoReply (buf : NetBuf) : NetBuf :=
  let buf := (buf.setField 0 1 icmpTypeEchoReply).setField 2 2 0
  buf.setField 2 2 (icmpChecksum buf.block buf.data buf.len)

/-- `icmp_input`; the messages that are only printed leave the state as it is. -/
def icmpInput (env : NetEnv) (h : Host) (buf : NetBuf) (src dst : Ipv4Addr) : Host × Int :=
  if buf.len < icmpHeaderSize then (h, -1)
  else if icmpChecked buf = false then (h, -1)
  else if buf.field 0 1 = icmpTypeEchoRequest then
    ((ipv4Output env h (echoReply buf) src dst ipProtoIcmp).1, 0)
  else if buf.field 0 1 = icmpTypeEchoReply then
    if h.ping.waiting = true ∧ h.ping.id = ntohs (buf.field 4 2) ∧ h.ping.sequence = ntohs (buf.field 6 2) then
      ({ h with ping := { h.ping with completed := true } }, 0)
    else (h, 0)
  else (h, 0)

def udpInput (env : NetEnv) (h : Host) (buf : NetBuf) (src dst : Ipv4Addr) : Host × Int :=
  if buf.len < udpHeaderSize then (h, -1)
  else if buf.len < ntohs (buf.field 4 2) then (h, -1)
  else
    let up := buf.pull udpHeaderSize
    match h.udpHandlers (ntohs (buf.field 2 2)) with
    | none => (h, 0)
    | some handler =>
      let call : UdpCall :=
        { handler := handler, src := src, dst := dst, srcPort := ntohs (buf.field 0 2), dstPort := ntohs (buf.field 2 2)
          payload := up.frame }
      let h := { h with calls := h.calls ++ [call] }
      match handler with
      | .dhcp => (dhcpInput env h up, 0)
      | .other _ => (h, 0)

/-! ## IPv4 -/

def ipVersion (buf : NetBuf) : Nat := buf.field 0 1 / 16
def ipHlen (buf : NetBuf) : Nat := 4 * (buf.field 0 1 % 16)
def ipTotalLen (buf : NetBuf) : Nat := ntohs (buf.field 2 2)
def ipTtl (buf : NetBuf) : Nat := buf.field 8 1
def ipProtocol (buf : NetBuf) : Nat := buf.field 9 1
def ipSrc (buf : NetBuf) : Ipv4Addr := BitVec.ofNat 32 (buf.field 12 4)
def ipDst (buf : NetBuf) : Ipv4Addr := BitVec.ofNat 32 (buf.field 16 4)

def ipChecked (buf : NetBuf) : Bool :=
  decide (ipv4Checksum (buf.setField 10 2 0).block buf.data (ipHlen buf) = buf.field 10 2)

inductive Ipv4Verdict where
  | drop
  | timeExceeded
  | deliver (handler : IpHandler) (up : NetBuf)

/-- The checks of `ipv4_input`, up to the call of a handler. -/
def ipv4Receive (protocols : Nat → Option IpHandler) (buf : NetBuf) : Ipv4Verdict :=
  if ipVersion buf ≠ 4 then .drop
  else if buf.len < ipv4HeaderMin then .drop
  else if ipChecked buf = false then .drop
  else if ipTtl buf ≤ 1 then .timeExceeded
  else
    match protocols (ipProtocol buf) with
    | some handler => .deliver handler (buf.pull (ipHlen buf))
    | none => .drop

/-- The ICMP message about a packet that has lived too long: the header and eight bytes more. -/
def ipv4TimeExceeded (env : NetEnv) (h : Host) (buf : NetBuf) : Host :=
  match env.block with
  | none => h
  | some block =>
    let icmp := netAllocBuf block (u32 (buf.len + 8))
    let icmp := { icmp with block := blit block icmp.data (ipHlen buf + 8) buf.byte, len := ipHlen buf + 8 }
    (icmpOutput env h icmp (ipSrc buf) (ipDst buf) icmpTypeTimeExceeded icmpCodeTtlExceeded).1

/-- The two addresses that a handler registered through the cast finds: the low half of the pointer to the device, and
the low half of what the register of the third argument holds. -/
def handlerArgs (env : NetEnv) (dev : Nat) : Ipv4Addr × Ipv4Addr := (BitVec.ofNat 32 dev, BitVec.ofNat 32 env.rdx)

def ipv4Deliver (env : NetEnv) (h : Host) (handler : IpHandler) (up : NetBuf) (dev : Nat) : Host :=
  match handler with
  | .icmp => (icmpInput env h up (handlerArgs env dev).1 (handlerArgs env dev).2).1
  | .udp => (udpInput env h up (handlerArgs env dev).1 (handlerArgs env dev).2).1
  | .tcp => env.tcpInput h up dev

def ipv4Input (env : NetEnv) (h : Host) (buf : NetBuf) (dev : Nat) : Host :=
  match ipv4Receive h.ipv4Protocols buf with
  | .drop => h
  | .timeExceeded => ipv4TimeExceeded env h buf
  | .deliver handler up => ipv4Deliver env h handler up dev

/-! ## Ethernet -/

def ethernetInput (env : NetEnv) (h : Host) (buf : NetBuf) (dev : Nat) : Host :=
  if buf.len < ethHlen then h
  else
    let dstMac := macAt buf.block buf.data
    let up := buf.pull ethHlen
    if dstMac ≠ (h.devs dev).macAddr ∧ dstMac ≠ ethMacBroadcast then h
    else
      match h.ethProtocols (ntohs (buf.field 12 2)) with
      | none => h
      | some .ipv4 => ipv4Input env h up dev
      | some .ipv6 => env.ipv6Input h up dev
      | some .arp => arpInput env h up dev

def netInitEth (type : Nat) : Option EthHandler :=
  if type = ethPIp then some .ipv4 else if type = ethPIpv6 then some .ipv6 else if type = ethPArp then some .arp
    else none

def netInitIpv4 (protocol : Nat) : Option IpHandler :=
  if protocol = ipProtoIcmp then some .icmp
  else if protocol = ipProtoTcp then some .tcp
  else if protocol = ipProtoUdp then some .udp
  else none

def netInit (devs : Nat → NetDevice) : Host where
  devs := devs
  ethProtocols := netInitEth
  ipv4Protocols := netInitIpv4
  udpHandlers := fun _ => none
  routes := []
  idCounter := 0
  arp := arpCacheClear
  ping := { waiting := false, id := 0, sequence := 0, completed := false }
  clients := []
  sent := []
  calls := []
  notified := []

/-! ## What reaches a handler -/

def Accepted (protocols : Nat → Option IpHandler) (buf : NetBuf) : Prop :=
  ipVersion buf = 4 ∧ ipv4HeaderMin ≤ buf.len ∧ ipChecked buf = true ∧ 1 < ipTtl buf ∧
    (protocols (ipProtocol buf)).isSome = true

theorem ipv4Receive_deliver {protocols : Nat → Option IpHandler} {buf up : NetBuf} {handler : IpHandler} :
    ipv4Receive protocols buf = .deliver handler up ↔
      Accepted protocols buf ∧ protocols (ipProtocol buf) = some handler ∧ up = buf.pull (ipHlen buf) := by
  unfold ipv4Receive Accepted
  by_cases hv : ipVersion buf = 4
  swap
  · simp [hv]
  by_cases hl : buf.len < ipv4HeaderMin
  · simp [hl]
  by_cases hc : ipChecked buf = true
  swap
  · simp [hc]
  by_cases ht : ipTtl buf ≤ 1
  · simp [hv, hl, hc, ht]
  cases hp : protocols (ipProtocol buf) with
  | none => simp [ht]
  | some handler' =>
    simp only [hv, hl, hc, ht, ne_eq, not_true_eq_false, if_false, Bool.true_eq_false, Ipv4Verdict.deliver.injEq,
      not_lt.1 hl, not_le.1 ht, Option.isSome_some, Option.some.injEq, true_and]
    exact and_congr_right fun _ => eq_comm

/-- What a handler may rely on: the header length is between 20 and the length received, the total length between the
header length and the length received, and the buffer is what comes after the header, up to the total length. -/
def HandedUp (buf up : NetBuf) : Prop :=
  20 ≤ ipHlen buf ∧ ipHlen buf ≤ buf.len ∧ ipHlen buf ≤ ipTotalLen buf ∧ ipTotalLen buf ≤ buf.len ∧
    up.data = buf.data + ipHlen buf ∧ up.len = ipTotalLen buf - ipHlen buf

def LengthsAgree (buf : NetBuf) : Prop := 20 ≤ ipHlen buf ∧ ipHlen buf ≤ buf.len ∧ ipTotalLen buf = buf.len

theorem handedUp_iff (buf : NetBuf) : HandedUp buf (buf.pull (ipHlen buf)) ↔ LengthsAgree buf := by
  unfold NetBuf.pull
  constructor
  · rintro ⟨h20, hlen, htotal, _, _, hup⟩
    rw [if_neg (by omega)] at hup
    dsimp only at hup
    exact ⟨h20, hlen, by omega⟩
  · rintro ⟨h20, hlen, htotal⟩
    rw [if_neg (by omega)]
    exact ⟨h20, hlen, by omega, by omega, rfl, by dsimp only; omega⟩

/-- **A buffer that `ipv4_input` hands to a handler is what the header says, exactly if the header of an accepted packet
agrees with the length received.**  Neither of the two lengths in the header is checked: a header length past the end of
the packet makes `net_pull` do nothing, and the padding of a short frame is handed up with the packet. -/
theorem ipv4_valid_iff (protocols : Nat → Option IpHandler) (buf : NetBuf) :
    (∀ handler up, ipv4Receive protocols buf = .deliver handler up → HandedUp buf up) ↔
      (Accepted protocols buf → LengthsAgree buf) := by
  constructor
  · intro h haccepted
    obtain ⟨handler, hhandler⟩ := Option.isSome_iff_exists.1 haccepted.2.2.2.2
    exact (handedUp_iff buf).1 (h handler _ (ipv4Receive_deliver.2 ⟨haccepted, hhandler, rfl⟩))
  · intro h handler up hup
    obtain ⟨haccepted, _, rfl⟩ := ipv4Receive_deliver.1 hup
    exact (handedUp_iff buf).2 (h haccepted)

/-- A packet of twenty bytes, as it arrives in the smallest frame. -/
def paddedPacket : NetBuf :=
  { netAllocBuf (blit (fun _ => 0#8) 64 20
      (listBytes [0x45, 0, 0, 20, 0, 0, 0, 0, 64, 1, 0x7A, 0xEA, 0, 0, 0, 0, 0, 0, 0, 0])) 46 with len := 46 }

/-- The handler of ICMP is given the padding as a message of 26 bytes. -/
theorem padding_handed_up :
    ∃ up, ipv4Receive netInitIpv4 paddedPacket = .deliver .icmp up ∧ up.len = 26 ∧ ¬ HandedUp paddedPacket up := by
  refine ⟨_, ipv4Receive_deliver.2 ⟨?_, ?_, rfl⟩, ?_, ?_⟩
  · unfold Accepted
    decide +kernel
  · decide +kernel
  · decide +kernel
  · rw [handedUp_iff]
    unfold LengthsAgree
    decide +kernel

end Net
end OS64
