import MotionBeavy.BitVector
import MotionBeavy.Wire
import MotionBeavy.CountBits
import MotionBeavy.Gates
import MotionBeavy.Circuit
import MotionBeavy.Build
import MotionBeavy.Protocol
import MotionBeavy.Shares
import MotionBeavy.Setup
import MotionBeavy.InputSender
import MotionBeavy.Online
import MotionBeavy.OnlineInv
import MotionBeavy.OnlineAnd
import MotionBeavy.Correctness
import MotionBeavy.Checks
import MotionBeavy.OnlineErrors
import MotionBeavy.Schedule
import MotionBeavy.Progress
import MotionBeavy.Messages
import MotionBeavy.Outputs
import MotionBeavy.Privacy
import MotionBeavy.Network
import MotionBeavy.Backend
