import Wallbot.Lib.Machine
import Wallbot.Lib.Fifo
import Wallbot.Lib.LittleEndian
import Wallbot.Lib.Backlog
import Wallbot.Lib.Component
import Wallbot.Lib.Correlation
import Wallbot.Lib.Delivery
import Wallbot.Lib.Halting
import Wallbot.Lib.HandleLog
import Wallbot.Lib.InternTable
import Wallbot.Lib.JsonParser
import Wallbot.Lib.JsonScalar
import Wallbot.Lib.JsonText
import Wallbot.Lib.LaggedMwc
import Wallbot.Lib.LinearCongruential
import Wallbot.Lib.Rounding
import Wallbot.Lib.Tally
import Wallbot.WireProtocol
import Wallbot.Actuator
import Wallbot.ControlLoop
import Wallbot.ControlLoopTraffic
import Wallbot.ControlLoopTrace
import Wallbot.DutyRamp
import Wallbot.LastCommand
import Wallbot.Comms
import Wallbot.FaultInjection
import Wallbot.Firmware
import Wallbot.EndToEnd
import Wallbot.VoltageMonitor
import Wallbot.Noninterference
import Wallbot.Rand8
import Wallbot.VoltageWalk
import Wallbot.SpikeRecurrence
import Wallbot.WssPeripheral
import Wallbot.WssDriver
import Wallbot.ImuRelay
import Wallbot.Quantisation
import Wallbot.RelayFraming
import Wallbot.RelayJson
import Wallbot.RelayOrder
import Wallbot.Demo
import Wallbot.FaultBudget
import Wallbot.Conservation
import Wallbot.Bursts
import Wallbot.Interactions
import Wallbot.Scheduling
import Wallbot.TaskNames
import Wallbot.Stats
import Wallbot.IpRandom
import Wallbot.TraceStreamPort
import Wallbot.TraceStreamLifecycle
import Wallbot.TraceStreamResults
import Wallbot.TraceStreamSession
