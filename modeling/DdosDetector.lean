import DdosDetector.AlarmRuns
import DdosDetector.Equality
import DdosDetector.Merging
import DdosDetector.Rates
import DdosDetector.Sharding
import DdosDetector.Edits
import DdosDetector.Destinations
import DdosDetector.Relevance
import DdosDetector.Intervals
import DdosDetector.Console
import DdosDetector.Numerals
import DdosDetector.RuleNumbers
import DdosDetector.FirstMatch
import DdosDetector.Parses
import DdosDetector.Reload
import DdosDetector.Thresholds
import DdosDetector.Blocks
import DdosDetector.Networks
import DdosDetector.ShortSizes
import DdosDetector.Criteria
import DdosDetector.Receiver
import DdosDetector.Answers
import DdosDetector.Display
import DdosDetector.Comparisons
import DdosDetector.Ports
import DdosDetector.UdpPackets
import DdosDetector.BitMasks
import DdosDetector.Flags
import DdosDetector.ListEdits
import DdosDetector.ReceiveLoop
import DdosDetector.JobScript
import DdosDetector.TaskQueue
import DdosDetector.JobInfo
import DdosDetector.RuleTexts
import DdosDetector.FreeBsd
import DdosDetector.Pipeline
import DdosDetector.Sessions
import DdosDetector.Iterations
import DdosDetector.RingRuns
import DdosDetector.Startup
import DdosDetector.Statistics
import DdosDetector.Frames
import DdosDetector.Propagation
import DdosDetector.Excess
