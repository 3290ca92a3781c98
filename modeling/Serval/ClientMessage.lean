import Serval.ByteLayout

/-! # Messages between an application and the stack

`client_msg.h` and `message.hh`: what goes over the stream between libserval and the user-level stack, least significant
byte first.
-/
namespace ClientMessage

open ByteLayout

inductive MsgType where
  | unknown | bindReq | bindRsp | connectReq | connectRsp | listenReq | listenRsp | acceptReq | acceptRsp | accept2Req
  | accept2Rsp | sendReq | sendRsp | recvReq | recvRsp | closeReq | closeRsp | recvmesg | clearData | haveData
  deriving DecidableEq

def MsgType.all : List MsgType :=
  [.unknown, .bindReq, .bindRsp, .connectReq, .connectRsp, .listenReq, .listenRsp, .acceptReq, .acceptRsp, .accept2Req,
    .accept2Rsp, .sendReq, .sendRsp, .recvReq, .recvRsp, .closeReq, .closeRsp, .recvmesg, .clearData, .haveData]

def MsgType.toByte (type : MsgType) : UInt8 := UInt8.ofNat (MsgType.all.idxOf type)

/-- `none` is past the end of the tables. -/
def MsgType.ofByte (b : UInt8) : Option MsgType := MsgType.all[b.toNat]?

@[simp] theorem MsgType.ofByte_toByte (type : MsgType) : ofByte type.toByte = some type := by
  cases type <;> decide

def CLIENT_MSG_VERSION : UInt8 := 1

def CLIENT_MSG_HDR_LEN : ℕ := 4

def MsgType.len : MsgType → ℕ
  | .bindReq => CLIENT_MSG_HDR_LEN + (1 + 1 + 32)
  | .bindRsp => CLIENT_MSG_HDR_LEN + (32 + 1)
  | .connectReq => CLIENT_MSG_HDR_LEN + (32 + 1 + 2)
  | .connectRsp => CLIENT_MSG_HDR_LEN + (32 + 1)
  | .listenReq => CLIENT_MSG_HDR_LEN + (1 + 32 + 2)
  | .listenRsp => CLIENT_MSG_HDR_LEN + 1
  | .acceptReq => CLIENT_MSG_HDR_LEN + 1
  | .acceptRsp => CLIENT_MSG_HDR_LEN + (32 + 32 + 4 + 1)
  | .accept2Req => CLIENT_MSG_HDR_LEN + (32 + 4 + 1)
  | .accept2Rsp => CLIENT_MSG_HDR_LEN + 1
  | .sendReq => CLIENT_MSG_HDR_LEN + (1 + 32 + 4 + 2 + 4)
  | .sendRsp => CLIENT_MSG_HDR_LEN + 1
  | .recvReq => CLIENT_MSG_HDR_LEN + (2 + 4)
  | .recvRsp => CLIENT_MSG_HDR_LEN + (32 + 4 + 2 + 4 + 1)
  | .closeRsp => CLIENT_MSG_HDR_LEN + 1
  | .unknown | .closeReq | .recvmesg | .clearData | .haveData => CLIENT_MSG_HDR_LEN

structure Hdr where
  version : UInt8
  type : UInt8
  payloadLength : UInt16
  deriving DecidableEq

def Hdr.toBytes (h : Hdr) : List UInt8 := h.version :: h.type :: leBytes 2 h.payloadLength.toNat

def Hdr.ofBytes (bs : List UInt8) : Hdr := ⟨bs.getD 0 0, bs.getD 1 0, .ofNat (leNat (bs.drop 2))⟩

@[simp] theorem Hdr.length_toBytes (h : Hdr) : h.toBytes.length = CLIENT_MSG_HDR_LEN := by
  simp [toBytes, CLIENT_MSG_HDR_LEN]

@[simp] theorem Hdr.ofBytes_toBytes (h : Hdr) : ofBytes h.toBytes = h := by
  simp [ofBytes, toBytes]

end ClientMessage
