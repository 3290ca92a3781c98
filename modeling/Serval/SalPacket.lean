import Serval.SalForwarding
import Serval.SalSocket

/-! # Packets as bytes and as records

What the functions of a socket read through the parsed context.
-/
namespace SalPacket

open ByteMemory SkBuff SalHeader SalFormat SalParse SalSourceExt SalSourceSpec SalForwarding List SalResolve SalSocket

def flagsOf (f : UInt16) : Flags where
  syn := f &&& SVH_SYN != 0
  rsyn := f &&& SVH_RSYN != 0
  ack := f &&& SVH_ACK != 0
  nack := f &&& SVH_NACK != 0
  rst := f &&& SVH_RST != 0
  fin := f &&& SVH_FIN != 0

def ctrlExtAt (m : Mem) (a : ℕ) : CtrlExt where
  flags := flagsOf (controlFlags (m (a + 2)))
  verno := word32 (read m (a + 4) 4)
  ackno := word32 (read m (a + 8) 4)
  nonce := ⟨read m (a + 12) 8, length_read ..⟩
  length := extLength m a

def srvExtAt (m : Mem) (a : ℕ) : SrvExt := ⟨⟨read m (a + 4) 32, length_read ..⟩, extLength m a⟩

def srcExtAt (m : Mem) (a : ℕ) : SrcExt where
  addrs := (List.range (numAddrs (extLength m a))).map fun i => word32 (read m (getAddr a i) 4)
  length := extLength m a

def packetOf (skb : Skb) (ctx : SalContext) (dev : ℕ) (type : PacketType) : Packet where
  saddr := word32 (saddr skb.mem skb.networkHeader)
  daddr := word32 (daddr skb.mem skb.networkHeader)
  ipProtocol := skb.mem (skb.networkHeader + 9)
  srcFlowid := word32 (srcFlowid skb.mem ctx.hdr)
  dstFlowid := word32 (dstFlowid skb.mem ctx.hdr)
  protocol := protocol skb.mem ctx.hdr
  ctrl := ctx.ctrlExt.map (ctrlExtAt skb.mem)
  srv0 := ctx.srvExt0.map (srvExtAt skb.mem)
  srv1 := ctx.srvExt1.map (srvExtAt skb.mem)
  source := ctx.srcExt.map (srcExtAt skb.mem)
  transport := hdrLength skb.mem ctx.hdr < skb.len
  dev := dev
  pktType := type

end SalPacket
