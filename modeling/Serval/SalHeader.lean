import Serval.ByteMemory
import Serval.OnesComplement

/-! # The SAL header and its parser

A pointer is an address and NULL is `none`. The parser reads the length byte of an extension before it knows how many
bytes are left.
-/
namespace SalHeader

open ByteMemory

def SAL_HEADER_LEN : ℕ := 12
def MAX_NUM_SAL_EXTENSIONS : ℕ := 10

def srcFlowid (m : Mem) (sh : ℕ) : List UInt8 := read m sh 4
def dstFlowid (m : Mem) (sh : ℕ) : List UInt8 := read m (sh + 4) 4
def shl (m : Mem) (sh : ℕ) : UInt8 := m (sh + 8)
def protocol (m : Mem) (sh : ℕ) : UInt8 := m (sh + 9)

inductive ExtType where
  | pad
  | control
  | service
  | address
  | source
  deriving DecidableEq, Repr

def ExtType.code : ExtType → ℕ
  | .pad => 0
  | .control => 1
  | .service => 2
  | .address => 3
  | .source => 4

def extType (b : UInt8) : Option ExtType :=
  match b.toNat / 16 with
  | 0 => some .pad
  | 1 => some .control
  | 2 => some .service
  | 3 => some .address
  | 4 => some .source
  | _ => none

def setExtType (type : ExtType) (b : UInt8) : UInt8 := UInt8.ofNat (type.code * 16 + b.toNat % 16)

def minExtLength : ExtType → ℕ
  | .pad => 1
  | .control => 20
  | .service => 36
  | .address => 12
  | .source => 4

theorem one_lt_minExtLength {type : ExtType} (h : type ≠ .pad) : 1 < minExtLength type := by
  cases type with
  | pad => exact absurd rfl h
  | control | service | address | source => decide

def salExtLen (m : Mem) (ext : ℕ) : ℕ :=
  if extType (m ext) = some .pad then 1 else (m (ext + 1)).toNat

def salExtNext (m : Mem) (ext : ℕ) : ℕ := ext + salExtLen m ext

def SVH_SYN : UInt16 := 1
def SVH_RSYN : UInt16 := 2
def SVH_ACK : UInt16 := 4
def SVH_NACK : UInt16 := 8
def SVH_RST : UInt16 := 16
def SVH_FIN : UInt16 := 32
def SVH_CONN_ACK : UInt16 := 64

def controlFlags (b : UInt8) : UInt16 :=
  (if b.toNat.testBit 7 then SVH_SYN else 0) |||
  (if b.toNat.testBit 6 then SVH_RSYN else 0) |||
  (if b.toNat.testBit 5 then SVH_ACK else 0) |||
  (if b.toNat.testBit 4 then SVH_NACK else 0) |||
  (if b.toNat.testBit 2 then SVH_FIN else 0) |||
  (if b.toNat.testBit 3 then SVH_RST else 0)

structure SalContext where
  hdr : ℕ
  length : ℕ
  flags : UInt16 := 0
  verno : UInt32 := 0
  ackno : UInt32 := 0
  ext : List ℕ := []
  ctrlExt : Option ℕ := none
  addrExt : Option ℕ := none
  srvExt0 : Option ℕ := none
  srvExt1 : Option ℕ := none
  srcExt : Option ℕ := none
  deriving DecidableEq, Repr

def parsePadExt (ctx : SalContext) : SalContext × ℤ := (ctx, 1)

def parseControlExt (m : Mem) (ext extLen : ℕ) (ctx : SalContext) : SalContext × ℤ :=
  if ctx.ctrlExt.isSome then (ctx, -1)
  else ({ ctx with
    ctrlExt := some ext
    verno := word32 (read m (ext + 4) 4)
    ackno := word32 (read m (ext + 8) 4)
    flags := ctx.flags ||| controlFlags (m (ext + 2)) }, extLen)

def parseServiceExt (ext extLen : ℕ) (ctx : SalContext) : SalContext × ℤ :=
  if ctx.srvExt0.isSome && ctx.srvExt1.isSome then (ctx, -1)
  else if ctx.srvExt0.isNone then ({ ctx with srvExt0 := some ext }, extLen)
  else if ctx.srvExt1.isNone then ({ ctx with srvExt1 := some ext }, extLen)
  else (ctx, -1)

def parseAddressExt (extLen : ℕ) (ctx : SalContext) : SalContext × ℤ := (ctx, extLen)

/-- `SAL_SOURCE_EXT_NUM_ADDRS` of an extension of at least four bytes. -/
def numAddrs (extLen : ℕ) : ℕ := (extLen - 4) / 4

def parseSourceExt (ext extLen : ℕ) (ctx : SalContext) : SalContext × ℤ :=
  if ctx.srcExt.isSome then (ctx, -1)
  else
    let ctx := { ctx with srcExt := some ext }
    if numAddrs extLen < 2 then (ctx, -1) else (ctx, extLen)

def parseExt (m : Mem) (ext : ℕ) (ctx : SalContext) : SalContext × ℤ :=
  let extLen := salExtLen m ext
  match extType (m ext) with
  | none => (ctx, -1)
  | some type =>
    if extLen < minExtLength type then (ctx, -1)
    else match type with
      | .pad => parsePadExt ctx
      | .control => parseControlExt m ext extLen ctx
      | .service => parseServiceExt ext extLen ctx
      | .address => parseAddressExt extLen ctx
      | .source => parseSourceExt ext extLen ctx

def parseLoop (m : Mem) : ℕ → ℕ → ℤ → SalContext → SalContext × ℤ
  | 0, _, hdrLen, ctx => (ctx, hdrLen)
  | slots + 1, ext, hdrLen, ctx =>
    if 0 < hdrLen then
      let r := parseExt m ext ctx
      if r.2 ≤ 0 then (r.1, -1)
      else parseLoop m slots (salExtNext m ext) (hdrLen - r.2) { r.1 with ext := r.1.ext ++ [ext] }
    else (ctx, hdrLen)

inductive ParseMode where
  | base
  | all
  deriving DecidableEq, Repr

def hdrLength (m : Mem) (sh : ℕ) : ℕ := (shl m sh).toNat <<< 2

def servalSalParseHdr (m : Mem) (sh : ℕ) (mode : ParseMode) : SalContext × ℤ :=
  let ctx : SalContext := { hdr := sh, length := hdrLength m sh }
  if ctx.length < SAL_HEADER_LEN then (ctx, -1)
  else if mode = .base then (ctx, 0)
  else parseLoop m MAX_NUM_SAL_EXTENSIONS (sh + SAL_HEADER_LEN) (ctx.length - SAL_HEADER_LEN : ℕ) ctx

def servalSalCsum (m : Mem) (sh len : ℕ) : UInt16 := OnesComplement.checksum (read m sh len)

def servalSalSendCheck (m : Mem) (sh : ℕ) : Mem :=
  let m := write m (sh + 10) (OnesComplement.bytes 0)
  write m (sh + 10) (OnesComplement.bytes (servalSalCsum m sh (hdrLength m sh)))

end SalHeader
