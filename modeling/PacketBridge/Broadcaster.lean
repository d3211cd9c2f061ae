import PacketBridge.ListenerOutput

/-! The broadcaster, and what a listener shows of it when the network loses, delays, doubles and
reorders its announcements. -/
namespace PacketBridge
open Foundations

variable {argument hostname : Option Bytes} {host ip : Bytes} {its : List Iteration}

end PacketBridge
