import Stm32Robot.Theory.Transducer
import Stm32Robot.Theory.BoundedFifo
import Stm32Robot.Theory.RingAddress
import Stm32Robot.Theory.History
import Stm32Robot.Motor.Queue
import Stm32Robot.Motor.QueueRefinement
import Stm32Robot.Motor.ConvertData
import Stm32Robot.Motor.Driver
import Stm32Robot.Motor.Frame
import Stm32Robot.Motor.Message
import Stm32Robot.Motor.MessageEffect
import Stm32Robot.Motor.MessageAccept
import Stm32Robot.Motor.ControlMode
import Stm32Robot.Motor.SpeedLimit
import Stm32Robot.Motor.QueueInterrupt
import Stm32Robot.Serial.FrameReceiver
import Stm32Robot.Serial.RobotPort
import Stm32Robot.Serial.UsmartPort
import Stm32Robot.Can.CanThread
import Stm32Robot.Can.MotionDelivery
import Stm32Robot.Net.TcpThread
import Stm32Robot.Net.FeedbackEncoders
import Stm32Robot.Motor.FeedbackReply
import Stm32Robot.Theory.PartialRun
import Stm32Robot.Can.DriveAddress
import Stm32Robot.Motor.AxisTracking
import Stm32Robot.Motor.ExactKinematics
import Stm32Robot.Motor.ClosedLoop
import Stm32Robot.Motor.VelocityEcho
import Stm32Robot.Motor.SteeringDomain
import Stm32Robot.Serial.BufferBound
import Stm32Robot.Net.CopyBound
import Stm32Robot.Sensor.Heading
import Stm32Robot.Motor.Median
import Stm32Robot.Sensor.Ultrasonic
import Stm32Robot.Motor.SteeringTravel
import Stm32Robot.Net.PbufCopy
import Stm32Robot.Net.Usart3Burst
import Stm32Robot.Can.ReadCan
import Stm32Robot.Net.WifiFresh
import Stm32Robot.Net.WifiSendBound
import Stm32Robot.Motor.AngleDomain
import Stm32Robot.Motor.FeedbackRange
import Stm32Robot.Motor.Codec
import Stm32Robot.Serial.Progress
import Stm32Robot.Heap.Malloc
import Stm32Robot.Net.SysArch
import Stm32Robot.Sensor.ImuBuffer
import Stm32Robot.Heap.Blocks
import Stm32Robot.Heap.LiveBlocks
import Stm32Robot.Heap.ExactFree
import Stm32Robot.Net.LwipInit
import Stm32Robot.Kernel.MessageQueue
import Stm32Robot.Theory.PriorityMap
import Stm32Robot.Kernel.Core
import Stm32Robot.Kernel.Services
import Stm32Robot.Kernel.TaskState
import Stm32Robot.Kernel.Invariant
import Stm32Robot.Kernel.Transitions
import Stm32Robot.Kernel.TaskCalls
import Stm32Robot.Kernel.Objects
import Stm32Robot.Kernel.Preserved
import Stm32Robot.Kernel.Runs
import Stm32Robot.Kernel.Phases
import Stm32Robot.Theory.Handover
import Stm32Robot.Kernel.Delays
import Stm32Robot.Kernel.Traffic
import Stm32Robot.Kernel.Delivery
import Stm32Robot.Net.EthernetDescriptors
import Stm32Robot.Net.EthernetTransmit
import Stm32Robot.Net.EthernetOutbox
import Stm32Robot.Net.EthernetReceive
import Stm32Robot.Net.EthernetInbox
import Stm32Robot.Net.Timeouts
import Stm32Robot.Net.CyclicTimers
import Stm32Robot.Net.TimerDrift
