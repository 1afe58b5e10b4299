import Wallbot.Lib.LittleEndian

namespace Wallbot

open LittleEndian

/-!
# Wire protocol — the two copies of `wire_protocol.h`

The header is duplicated: the firmware packs its copy of `wire_msg_s` into the datagram,
the Linux side reads the datagram through its own.  Each copy is modelled on its own, with
its constants, its packed layout and the direction it is used in:

* `Freertos.WireMsg.image` — the bytes `FreeRTOS_sendto(&wire_msg, sizeof(wire_msg))` sends;
* `Linux.WireMsg.ofImage` — the fields the receiver finds in the bytes `recv` stored.

`ofImage_image` says that the two layouts agree.
-/

/-! ### The firmware's copy -/

namespace Freertos

/-- `WIRE_MAGIC0` -/
def wireMagic0 : UInt8 := 0xAA

/-- `WIRE_MAGIC1` -/
def wireMagic1 : UInt8 := 0xBB

/-- `WIRE_TYPE_WHEEL_SPEED` -/
def wireTypeWheelSpeed : UInt8 := 0xF0

/-- `wire_msg_s`, in the firmware's header. -/
structure WireMsg where
  magic0 : UInt8
  magic1 : UInt8
  type : UInt8
  seqnum : UInt32
  /-- 1/1000 radians/second -/
  wheelSpeed : Int32
  deriving DecidableEq, Repr

/-- The packed little-endian image of the struct. -/
def WireMsg.image (msg : WireMsg) : List UInt8 :=
  [msg.magic0, msg.magic1, msg.type] ++ toLE 4 msg.seqnum.toNat
    ++ toLE 4 msg.wheelSpeed.toUInt32.toNat

/-- The image has the struct's packed size. -/
@[simp] theorem WireMsg.image_length (msg : WireMsg) : msg.image.length = 11 := by
  simp [WireMsg.image]

end Freertos

/-! ### The Linux copy -/

namespace Linux

/-- `WIRE_MAGIC0` -/
def wireMagic0 : UInt8 := 0xAA

/-- `WIRE_MAGIC1` -/
def wireMagic1 : UInt8 := 0xBB

/-- `WIRE_TYPE_WHEEL_SPEED` -/
def wireTypeWheelSpeed : UInt8 := 0xF0

/-- `wire_msg_s`, in the Linux header. -/
structure WireMsg where
  magic0 : UInt8
  magic1 : UInt8
  type : UInt8
  seqnum : UInt32
  /-- 1/1000 radians/second -/
  wheelSpeed : Int32
  deriving DecidableEq, Repr

/-- `WIRE_MSG_SIZE`, the packed size of the struct. -/
def wireMsgSize : ℕ := 11

/-- The struct that `bytes` is the memory of. -/
def WireMsg.ofImage (bytes : List UInt8) : WireMsg where
  magic0 := bytes.getD 0 0
  magic1 := bytes.getD 1 0
  type := bytes.getD 2 0
  seqnum := UInt32.ofNat (ofLE ((bytes.drop 3).take 4))
  wheelSpeed := (UInt32.ofNat (ofLE ((bytes.drop 7).take 4))).toInt32

end Linux

/-- The message of the Linux header with the same fields. -/
def Freertos.WireMsg.toLinux (msg : Freertos.WireMsg) : Linux.WireMsg where
  magic0 := msg.magic0
  magic1 := msg.magic1
  type := msg.type
  seqnum := msg.seqnum
  wheelSpeed := msg.wheelSpeed

/-- **The two headers agree.**  The receiver finds the sender's fields in the image. -/
theorem ofImage_image (msg : Freertos.WireMsg) :
    Linux.WireMsg.ofImage msg.image = msg.toLinux := by
  -- The two numbers stand where the receiver's packed struct has them.
  have hseq : (msg.image.drop 3).take 4 = toLE 4 msg.seqnum.toNat := by
    simp [Freertos.WireMsg.image]
  have hspeed : (msg.image.drop 7).take 4 = toLE 4 msg.wheelSpeed.toUInt32.toNat := by
    simp [Freertos.WireMsg.image, List.take_of_length_le]
  rw [Linux.WireMsg.ofImage, hseq, hspeed, ofNat_ofLE_toLE, toInt32_ofLE_toLE]
  rfl

end Wallbot
